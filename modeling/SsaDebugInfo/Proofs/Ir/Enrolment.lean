import SsaDebugInfo.Proofs.Ir.Naming
import SsaDebugInfo.Proofs.Ir.Succession

/-!
# Names that leave and come back

A value that leaves a function and enters it again gets back the name that it had, and the function
has the names that it had. That is so because no function registers an empty name, or a name twice,
whatever is done (`Store.Proper`), and as long as values have the names that are registered for them
(`Store.Registered`).

- `setFunction_answers`, `setBlock_answers`: where names are registered, moving an instruction does
  not fault.
- `removeFromParent_releases`, `placeAfter_registers`: what moving does to names.
-/

namespace SsaDebugInfo

/-- No name is empty, and none is registered twice. -/
structure Registry.Proper (r : Registry) : Prop where
  once : r.names.Nodup
  named : "" ∉ r.names

theorem Registry.proper_empty : Registry.Proper {} :=
  ⟨List.nodup_nil, List.not_mem_nil⟩

namespace Function

variable {f : Function} {name : String}

/-- A fresh name is never empty. -/
theorem freshName_ne_empty (f : Function) (base : String) : f.freshName base ≠ "" := by
  have hlong : ∀ a b : String, a ++ "." ++ b ≠ "" := by
    intro a b h
    have := congrArg String.length h
    simp at this
  unfold freshName
  split
  · exact hlong "UNN" _
  · next hbase =>
    split
    · exact hlong base _
    · simpa using hbase

/-- Registering a fresh name leaves a registry proper. -/
theorem proper_register (h : f.registry.Proper) (base : String) :
    (f.register base).registry.Proper := by
  have hempty := f.freshName_ne_empty base
  show Registry.Proper ⟨if f.names.contains (f.freshName base) then f.names else _, _⟩
  split
  · exact ⟨h.once, h.named⟩
  · next hnew =>
    refine ⟨?_, ?_⟩
    · refine List.nodup_append.mpr ⟨h.once, List.nodup_singleton _, ?_⟩
      rintro a ha _ hmem rfl
      rw [List.mem_singleton.mp hmem] at ha
      exact hnew (List.contains_iff_mem.mpr ha)
    · rw [List.mem_append, List.mem_singleton]
      exact not_or.mpr ⟨h.named, hempty.symm⟩

/-- Releasing a name leaves a registry proper. -/
theorem proper_unregister (h : f.registry.Proper) (name : String) :
    (f.unregister name).registry.Proper :=
  ⟨h.once.erase name, fun hmem => h.named (List.mem_of_mem_erase hmem)⟩

/-- A name that is neither empty nor taken is given as it is, and joins the others. -/
theorem register_new (hne : name ≠ "") (hnew : name ∉ f.names) :
    f.freshName name = name ∧ (f.register name).registry = ⟨f.names ++ [name], f.nextName⟩ := by
  have hfresh : f.freshName name = name := by simp [freshName, hne, hnew]
  refine ⟨hfresh, ?_⟩
  simp [register, registry, hfresh, hnew, mustRename, hne]

end Function

namespace Store

variable {s t : Store}

/-- No function has registered an empty name, or a name twice. -/
def Proper (s : Store) : Prop :=
  ∀ f, (s.registry f).Proper

/-- Every value of a function has a name that the function has registered. -/
def Registered (s : Store) : Prop :=
  ∀ v f name, s.seat? v = some (f, name) → name ∈ (s.registry f).names

/-- Whether names are registered is seen from the values that have been made. -/
theorem registered_iff : s.Registered ↔
    ∀ i < s.values.size, ∀ seat ∈ s.seat? ⟨i⟩, seat.2 ∈ (s.registry seat.1).names := by
  constructor
  · exact fun h i _ seat hseat => h ⟨i⟩ seat.1 seat.2 hseat
  · intro h v f name hseat
    obtain ⟨o, ho, _⟩ := Option.bind_eq_some_iff.mp hseat
    exact h v.index (index_lt_of_get? ho) (f, name) hseat

instance : Decidable s.Registered :=
  decidable_of_iff _ registered_iff.symm

theorem Registered.of_unmoved (hs : s.Registered) (h : s.Unmoved t) : t.Registered := by
  intro v f name hseat
  have hsame : t.seat? v = s.seat? v := congrArg (·.seat v) h.naming
  rw [h.registry]
  exact hs v f name (hsame ▸ hseat)

/-- A change that leaves the names of functions proper. -/
def KeepsProper (s t : Store) : Prop :=
  s.Proper → t.Proper

instance : IsPreorder Store KeepsProper where
  refl _ h := h
  trans _ _ _ hst htu h := htu (hst h)

/-- Whether registries are proper depends on them alone. -/
theorem Proper.of_registry (h : s.Proper) (hregistry : ∀ f, t.registry f = s.registry f) :
    t.Proper := by
  intro f
  rw [hregistry]
  exact h f

/-- A change of a function leaves registries proper if it leaves that of the function proper. -/
theorem Proper.modify_function (h : s.Proper) (f : FunctionId) {g : Function → Function}
    (hg : ∀ o : Function, o.registry.Proper → (g o).registry.Proper) :
    (s.modify f g).Proper := by
  intro e
  have he := h e
  unfold registry at he ⊢
  rw [get?_modify]
  split
  · cases hget : s.get? e with
    | none => exact Registry.proper_empty
    | some o =>
      rw [hget] at he
      exact hg o he
  · exact he

/-- No function gets an empty name, or a name twice, when values are placed. -/
theorem places_keepsProper : Act.Places KeepsProper where
  value _ _ _ h := h.of_registry fun f => registry_modify_value f
  register f base _ h := h.modify_function f fun _ ho => Function.proper_register ho base
  unregister f name _ h := h.modify_function f fun _ ho => Function.proper_unregister ho name
  roster f _ _ h := h.modify_function f fun _ ho => ho

/-- What places nothing leaves the names of functions as they are. -/
theorem Proper.of_only (h : s.Proper) {act : Act Unit}
    (hact : act.Only (Touches { nodes := fun _ => True })) : (act.run s).2.Proper :=
  h.of_registry (hact.still s).registry

/-- A new object has an empty registry, if any. -/
theorem Proper.create (h : s.Proper) {kind : Kind} {object : Object kind}
    (hblank : kind.Blank object) : (s.push kind object).Proper := by
  cases kind with
  | function =>
    intro f
    unfold registry
    rw [get?_push]
    split
    · -- a new function knows no names yet
      have hempty : object.registry = {} := by
        rw [Function.registry, hblank.names, hblank.nextName]
      show Registry.Proper object.registry
      exact hempty ▸ Registry.proper_empty
    · exact h f
  | _ => exact h

/-- A revision leaves registries as they are. -/
theorem Proper.revise (h : s.Proper) {kind : Kind} {id : Id kind} {f : Object kind → Object kind}
    (hrevises : ∀ o, s.get? id = some o → kind.Revises o (f o)) : (s.modify id f).Proper := by
  cases kind with
  | function =>
    intro g
    have hg := h g
    unfold registry at hg ⊢
    rw [get?_modify]
    split
    · next heq =>
      subst heq
      cases ho : s.get? g with
      | none => exact Registry.proper_empty
      | some o =>
        have hsame := hrevises o ho
        have hregistry : (f o).registry = o.registry := by
          rw [Function.registry, hsame.names, hsame.nextName]
          rfl
        rw [ho] at hg
        show Registry.Proper (f o).registry
        exact hregistry ▸ hg
    · exact hg
  | _ => exact h

/-- No admissible edit makes a name empty, or registers it twice. -/
theorem Proper.kept_by_edit (h : s.Proper) {d : Discipline} {e : Edit} (he : e.Admissible d s) :
    (e.act.run s).2.Proper := by
  cases e with
  | annotate => exact h
  | create => exact h.create he.1
  | revise => exact h.revise fun o ho => (he o ho).1
  | place placement =>
    cases placement with
    | setArguments f l => exact places_keepsProper.setArguments f l s h
    | addBlock f b => exact places_keepsProper.addBlock f b s h
    | append b x => exact places_keepsProper.appendTo b x s h
    | insertBefore b x before => exact places_keepsProper.insertBefore b x before s h
    | insertAfter b x after => exact places_keepsProper.insertAfter b x after s h
    | remove b slot => exact places_keepsProper.removeFrom b slot s h
    | setInstructions b l => exact places_keepsProper.setInstructions b l s h
  | setOperands user operands => exact h.of_only (touches_setOperands rfl user operands)
  | setOperand user index operand => exact h.of_only (touches_setOperand rfl user index operand)
  | pushOperand user operand => exact h.of_only (touches_pushOperand rfl user operand)
  | addHandle context value handle =>
    refine h.of_registry fun f => ?_
    show (s.addHandle context value handle).registry f = s.registry f
    rw [registry, get?_addHandle f (by decide) (by decide), registry]
  | addWrapper context node =>
    refine h.of_registry fun f => ?_
    show (s.addWrapper context node).registry f = s.registry f
    rw [registry, get?_addWrapper f (by decide) (by decide), registry]

/-- Collection leaves registries proper. -/
theorem Proper.collect (h : s.Proper) (roots : List Slot) : (s.collect roots).Proper := by
  intro f
  rw [registry_collect]
  split
  · exact h f
  · exact Registry.proper_empty

end Store

theorem proper_initial : Store.initial.Proper := by
  intro f
  rw [Store.registry, Store.get?_initial f (by decide)]
  exact Registry.proper_empty

/-! ## Leaving a function and entering it -/

namespace Naming

/-- The naming where a value has left a function, which has released its name. -/
def leave (n : Naming) (v : ValueId) (f : FunctionId) (name : String) : Naming :=
  (n.setRegistry f { n.registry f with names := (n.registry f).names.erase name }).setSeat v none

/-- The naming where a value has entered a function, which has registered its name. -/
def enter (n : Naming) (v : ValueId) (f : FunctionId) (name : String) : Naming :=
  (n.setRegistry f { n.registry f with names := (n.registry f).names ++ [name] }).setSeat v
    (some (f, name))

/-- A name that is released has been registered once. -/
theorem mem_names_leave {n : Naming} {v : ValueId} {f g : FunctionId} {name left : String}
    (honce : (n.registry f).names.Nodup) :
    name ∈ ((n.leave v f left).registry g).names ↔
      name ∈ (n.registry g).names ∧ (f, left) ≠ (g, name) := by
  by_cases hg : g = f
  · subst hg
    have hmem := honce.mem_erase_iff (a := name) (b := left)
    simpa [leave, setRegistry, setSeat, and_comm, eq_comm] using hmem
  · simp [leave, setRegistry, setSeat, hg, Ne.symm hg]

/-- A value that enters a function adds its name, and no other. -/
theorem mem_names_enter {n : Naming} {v : ValueId} {f g : FunctionId} {name given : String} :
    name ∈ ((n.enter v f given).registry g).names ↔
      name ∈ (n.registry g).names ∨ (f, given) = (g, name) := by
  by_cases hg : g = f
  · subst hg
    simp [enter, setRegistry, setSeat, eq_comm]
  · simp [enter, setRegistry, setSeat, hg, Ne.symm hg]

/-- What leaves a function and enters it again leaves names as they were, but for their order. -/
theorem enter_leave {n : Naming} {v : ValueId} {f : FunctionId} {name : String}
    (hname : name ∈ (n.registry f).names) (g : FunctionId) :
    (((n.leave v f name).enter v f name).registry g).names.Perm (n.registry g).names ∧
      (((n.leave v f name).enter v f name).registry g).nextName = (n.registry g).nextName := by
  by_cases hg : g = f
  · subst hg
    have hperm : ((n.registry g).names.erase name ++ [name]).Perm (n.registry g).names :=
      (List.perm_append_singleton name _).trans (List.perm_cons_erase hname).symm
    simpa [leave, enter, setRegistry, setSeat] using hperm
  · simp [leave, enter, setRegistry, setSeat, hg]

/-- A value that leaves a function and enters it under its name is where it was. -/
theorem seat_enter_leave {n : Naming} {v : ValueId} {f : FunctionId} {name : String}
    (hseat : n.seat v = some (f, name)) :
    ((n.leave v f name).enter v f name).seat = n.seat := by
  funext w
  by_cases hw : w = v
  · simp [leave, enter, setRegistry, setSeat, hw, hseat]
  · simp [leave, enter, setRegistry, setSeat, hw]

end Naming

open Act Store

variable {s t : Store} {v x target b : ValueId} {f : FunctionId} {g : Option FunctionId}
  {name : String}

/-- A name that is registered is released. -/
theorem run_releaseName (hname : name ∈ (s.registry f).names) :
    (releaseName f name).run s = (.ok (), s.modify f (·.unregister name)) := by
  cases ho : s.get? f with
  | none =>
    rw [registry, ho] at hname
    cases hname
  | some o =>
    rw [registry_eq ho] at hname
    have hcontains : o.names.contains name = true := List.contains_iff_mem.mpr hname
    rw [releaseName, run_fetch_bind ho, hcontains]
    rfl

theorem siteOf?_eq {o : Value} (ho : s.get? v = some o) : s.siteOf? v = o.site? := by
  rw [siteOf?, ho]
  rfl

/-- The name of a value changes, or its function. -/
theorem siteOf?_mapSite {h : Site → Site} :
    (s.modify v (·.mapSite h)).siteOf? v = (s.siteOf? v).map h := by
  unfold siteOf?
  rw [get?_modify_self]
  cases s.get? v with
  | none => rfl
  | some o => exact o.site?_mapSite h

/-- A value that is in the function already stays as it is. -/
theorem run_setFunction_same {site : Site} (hsite : s.siteOf? v = some site) :
    (setFunction v site.function).run s = (.ok (), s) := by
  obtain ⟨o, ho, hosite⟩ := Option.bind_eq_some_iff.mp hsite
  rw [setFunction, run_fetch_bind ho, hosite]
  simp

/-- A value that leaves its function keeps its name, which the function releases. -/
theorem setFunction_releases (hsite : s.siteOf? v = some ⟨name, some f⟩)
    (hname : name ∈ (s.registry f).names) :
    (setFunction v none).Ends s
      (fun _ t => t.naming = s.naming.leave v f name ∧ t.siteOf? v = some ⟨name, none⟩)
      fun _ _ => False := by
  obtain ⟨o, ho, hosite⟩ := Option.bind_eq_some_iff.mp hsite
  obtain ⟨p, hp⟩ : ∃ p, s.get? f = some p := by
    cases hp : s.get? f with
    | some p => exact ⟨p, rfl⟩
    | none =>
      rw [registry, hp] at hname
      cases hname
  let released := s.modify f (·.unregister name)
  have ho' : released.get? v = some o := by rwa [get?_modify_function]
  have hrun : (setFunction v none).run s =
      (.ok (), released.modify v (·.mapSite fun site => { site with function := none })) := by
    rw [setFunction, run_fetch_bind ho, hosite]
    show Act.run (releaseName f name >>= fun _ => _) s = _
    rw [run_bind, run_releaseName hname]
    rfl
  unfold Ends
  rw [hrun]
  refine ⟨?_, ?_⟩
  · rw [naming_modify_value ho', Value.seat?_mapSite, hosite, naming_modify_function hp,
      Naming.leave]
    have hnames : s.naming.registry f = p.registry := registry_eq hp
    rw [hnames]
    rfl
  · rw [siteOf?_mapSite, siteOf?_eq ho', hosite]
    rfl

/-- A value with a name that is neither empty nor taken enters a function under this name. -/
theorem setFunction_registers (hsite : s.siteOf? v = some ⟨name, none⟩) (hf : s.Has (.function f))
    (hne : name ≠ "") (hnew : name ∉ (s.registry f).names) :
    (setFunction v (some f)).Ends s
      (fun _ t => t.naming = s.naming.enter v f name ∧ t.siteOf? v = some ⟨name, some f⟩)
      fun _ _ => False := by
  obtain ⟨o, ho, hosite⟩ := Option.bind_eq_some_iff.mp hsite
  obtain ⟨p, hp⟩ := Option.isSome_iff_exists.mp ((has_ref f).mp hf)
  rw [registry_eq hp] at hnew
  obtain ⟨hfresh, hregistry⟩ := Function.register_new hne hnew
  let linked := s.modify v (·.mapSite fun site => { site with function := some f })
  let registered := linked.modify f (·.register name)
  have hp' : linked.get? f = some p := by rwa [get?_modify_value]
  have ho' : registered.get? v = some (o.mapSite fun site => { site with function := some f }) := by
    rw [get?_modify_function, get?_modify_self, ho]
    rfl
  have hrun : (setFunction v (some f)).run s =
      (.ok (), registered.modify v (·.mapSite fun site => { site with name })) := by
    rw [setFunction, run_fetch_bind ho, hosite]
    show Act.run (registerName f name >>= fun name => update v _) linked = _
    -- the name is free, so that it is given as it is
    have hregister : (registerName f name).run linked = (.ok name, registered) := by
      rw [registerName, run_fetch_bind hp', hfresh]
      rfl
    rw [run_bind, hregister]
    rfl
  unfold Ends
  rw [hrun]
  refine ⟨?_, ?_⟩
  · rw [naming_modify_value ho', naming_modify_function hp', naming_modify_value ho]
    show ((s.naming.setRegistry f (p.register name).registry).setSeat v _).setSeat v _ = _
    have hnames : s.naming.registry f = p.registry := registry_eq hp
    rw [Naming.setSeat_setSeat, hregistry, Value.seat?_mapSite, Value.site?_mapSite, hosite,
      Naming.enter, hnames]
    rfl
  · rw [siteOf?_mapSite, siteOf?_eq ho', Value.site?_mapSite, hosite]
    rfl

/-! ## Moving instructions -/

/-- Entering a function does not fault; it does not look at names that have been released. -/
theorem setFunction_enters (base : String) (hg : ∀ f, g = some f → s.Has (.function f)) : (do
    update v (·.mapSite fun site => { site with function := g })
    if let some new := g then
      let name ← registerName new base
      update v (·.mapSite fun site => { site with name }) : Act Unit).Ends s
        (fun _ _ => True) fun _ _ => False := by
  refine ends_update_bind ?_
  cases g with
  | none => exact ends_pure trivial
  | some f =>
    obtain ⟨p, hp⟩ := Option.isSome_iff_exists.mp ((has_ref f).mp (has_modify.mpr (hg f rfl)))
    have hregister : (registerName f base).Ends _ (fun _ _ => True) fun _ _ => False :=
      ends_fetch_bind hp trivial
    exact hregister.bind fun _ _ _ => ends_update trivial

/-- Where the name of a value is registered, the value may change its function. -/
theorem setFunction_answers {site : Site} (hsite : s.siteOf? v = some site)
    (hname : ∀ f, site.function = some f → site.name ∈ (s.registry f).names)
    (hg : ∀ f, g = some f → s.Has (.function f)) :
    (setFunction v g).Ends s (fun _ _ => True) fun _ _ => False := by
  obtain ⟨o, ho, hosite⟩ := Option.bind_eq_some_iff.mp hsite
  refine ends_fetch_bind ho ?_
  rw [hosite]
  dsimp only
  split
  · cases hold : site.function with
    | none => exact setFunction_enters site.name hg
    | some old =>
      have hrelease : (releaseName old site.name).Ends s
          (fun _ t => ∀ f, g = some f → t.Has (.function f)) fun _ _ => False := by
        unfold Ends
        rw [run_releaseName (hname old hold)]
        exact fun f hf => has_modify.mpr (hg f hf)
      exact hrelease.bind fun _ _ ht => setFunction_enters site.name ht
  · exact ends_pure trivial

/-- For a change of block, the instruction has the new link when its function changes. -/
theorem setBlock_ends_of {block : Option ValueId} (hb : ∀ c, block = some c → s.Has (.value c))
    {answers : Unit → Store → Prop} {faults : Fault → Store → Prop}
    (h : (setFunction x (block.bind s.functionOf?)).Ends
      (s.modify x (·.mapInstruction fun i => { i with block })) answers faults) :
    (setBlock x block).Ends s answers faults := by
  refine ends_update_bind ?_
  cases block with
  | none => exact h
  | some c =>
    obtain ⟨p, hp⟩ := has_value_iff.mp (has_modify.mpr (hb c rfl) :
      (s.modify x (·.mapInstruction fun i => { i with block := some c })).Has (.value c))
    have hfunction : p.function? = s.functionOf? c := by
      rw [← functionOf?_modify (fun o =>
        o.site?_mapInstruction fun i => { i with block := some c }), functionOf?, hp]
      rfl
    refine ends_fetch_bind hp ?_
    rw [hfunction]
    exact h

/-- Where its name is registered, an instruction may change its block. -/
theorem setBlock_answers (hs : s.Closed)
    (hname : ∀ f name, s.seat? x = some (f, name) → name ∈ (s.registry f).names)
    (hx : s.formOf? x = some .instruction) {block : Option ValueId}
    (hb : ∀ c, block = some c → s.Has (.value c)) :
    (setBlock x block).Ends s (fun _ _ => True) fun _ _ => False := by
  obtain ⟨o, ho, hform⟩ := Option.bind_eq_some_iff.mp hx
  obtain ⟨site, hsite⟩ := Value.form?_eq_some hform
  let linked := s.modify x (·.mapInstruction fun i => { i with block })
  have hlinked : linked.siteOf? x = some site := by
    rw [siteOf?, get?_modify_self, ho]
    exact (o.site?_mapInstruction _).trans hsite
  refine setBlock_ends_of hb (setFunction_answers hlinked (fun f hf => ?_) fun f hf => ?_)
  · rw [registry_modify_value]
    refine hname f site.name ?_
    rw [seat?_eq ho, Value.seat?, hsite, Option.bind_some, hf]
    rfl
  · obtain ⟨c, _, hf⟩ := Option.bind_eq_some_iff.mp hf
    exact has_modify.mpr (hs.has_function hf)

/-- An instruction that is detached gets no block. -/
theorem run_detach (hx : s.formOf? x = some .instruction) :
    (detach (.ofValue x)).run s = (setBlock x none).run s := by
  obtain ⟨p, i, hp, hi⟩ := formOf?_eq_instruction.mp hx
  rw [detach, run_valueIn_bind (has_value_iff.mpr ⟨p, hp⟩), run_fetch_bind hp, hi]
  rfl

/-- An instruction that is in a block leaves this block. -/
theorem run_removeFromParent (hb : s.blockOf? x = some b) :
    (removeFromParent x).run s = (removeFrom b (.ofValue x)).run s := by
  rw [removeFromParent, run_get_bind, hb]

/-- An instruction in the list of a block is taken out of it as its link is taken away. -/
theorem removeFromParent_ends_of (h : s.ListsAgree) {answers : Unit → Store → Prop}
    {faults : Fault → Store → Prop} (hnone : s.blockOf? x = none → answers () s)
    (hsome : ∀ b, s.blockOf? x = some b → (setBlock x none).Ends s
      (fun _ t => answers () (t.modify b (·.mapInstructions (·.erase (.ofValue x))))) faults) :
    (removeFromParent x).Ends s answers faults := by
  refine ends_get_bind ?_
  cases hb : s.blockOf? x with
  | none => exact ends_pure (hnone hb)
  | some b =>
    have hmem := h.mem_instructionsOf.mpr hb
    obtain ⟨o, ho, _⟩ := formOf?_eq_block.mp (formOf?_of_mem_instructionsOf hmem)
    have hcontains : o.instructions.contains (.ofValue x) = true := by
      rw [instructionsOf, ho] at hmem
      exact List.contains_iff_mem.mpr hmem
    have hsets : (detach (.ofValue x)).Ends s
        (fun _ t => answers () (t.modify b (·.mapInstructions (·.erase (.ofValue x))))) faults := by
      unfold Ends
      rw [run_detach (formOf?_of_blockOf? hb)]
      exact hsome b hb
    refine ends_fetch_bind ho ?_
    rw [hcontains]
    exact hsets.bind fun _ _ ht => ends_update ht

/-- An instruction is placed behind another one as it is linked to the block. -/
theorem placeAfter_ends_of (hs : s.Closed) (hx : s.formOf? x = some .instruction)
    (hnone : s.blockOf? x = none) (htarget : s.blockOf? target = some b)
    (hmem : .ofValue target ∈ s.instructionsOf b) {answers : Unit → Store → Prop}
    {faults : Fault → Store → Prop} (h : (setBlock x (some b)).Ends s
      (fun _ t => ∀ l, answers () (t.modify b (·.mapInstructions l))) faults) :
    (placeAfter x (.ofValue target)).Ends s answers faults := by
  refine ends_get_bind ?_
  rw [hnone]
  refine instructionIn_bind_ends (formOf?_of_blockOf? htarget) (ends_get_bind ?_)
  rw [htarget]
  have hb := formOf?_of_mem_instructionsOf hmem
  refine Ends.bind (((linkTo_ends hs hb hx).and h).mono (fun _ _ ht => ht) fun _ _ hf => hf.2)
    fun _ t ⟨⟨hlist, _⟩, ht⟩ => ?_
  exact ends_run_bind (run_indexIn (hlist ▸ hmem)) (ht _)

/-- A change of a value that leaves names and functions shows in no site. -/
theorem siteOf?_modify_same {h : Value → Value} (hsite : ∀ o, (h o).site? = o.site?) (w : ValueId) :
    (s.modify v h).siteOf? w = s.siteOf? w :=
  asked_modify (fun o : Option (Object .value) => o.bind Value.site?) (fun o _ => hsite o) w

/-- An instruction that is taken out of its block keeps its name, which its function releases. -/
theorem removeFromParent_releases (h : s.ListsAgree) (hb : s.blockOf? x ≠ none)
    (hsite : s.siteOf? x = some ⟨name, some f⟩) (hname : name ∈ (s.registry f).names) :
    (removeFromParent x).Ends s
      (fun _ t => t.naming = s.naming.leave x f name ∧ t.siteOf? x = some ⟨name, none⟩)
      fun _ _ => False := by
  refine removeFromParent_ends_of h (fun hnone => absurd hnone hb) fun b _ => ?_
  refine setBlock_ends_of (by simp) ?_
  let linked := s.modify x (·.mapInstruction fun i => { i with block := none })
  have hlinked : linked.naming = s.naming := naming_modify_same fun o => o.site?_mapInstruction _
  have hregistry : linked.registry f = s.registry f := registry_modify_value f
  have hsite' : linked.siteOf? x = some ⟨name, some f⟩ :=
    (siteOf?_modify_same (fun o => o.site?_mapInstruction _) x).trans hsite
  refine (setFunction_releases hsite' (hregistry ▸ hname)).mono (fun _ t ⟨ht, hx⟩ => ?_)
    fun _ _ hf => hf
  refine ⟨?_, ?_⟩
  · rw [naming_modify_same fun o => o.site?_mapInstructions _, ht, hlinked]
  · rw [siteOf?_modify_same fun o => o.site?_mapInstructions _, hx]

/-- An instruction that is placed behind another one enters the function of the block under its own
name, if this is neither empty nor taken. -/
theorem placeAfter_registers (hs : s.Closed) (hx : s.formOf? x = some .instruction)
    (hnone : s.blockOf? x = none) (htarget : s.blockOf? target = some b)
    (hmem : .ofValue target ∈ s.instructionsOf b) (hf : s.functionOf? b = some f)
    (hsite : s.siteOf? x = some ⟨name, none⟩) (hne : name ≠ "")
    (hnew : name ∉ (s.registry f).names) :
    (placeAfter x (.ofValue target)).Ends s
      (fun _ t => t.naming = s.naming.enter x f name ∧ t.siteOf? x = some ⟨name, some f⟩)
      fun _ _ => False := by
  refine placeAfter_ends_of hs hx hnone htarget hmem ?_
  have hblock : ∀ c, some b = some c → s.Has (.value c) := by
    rintro _ ⟨⟩
    exact has_of_formOf? (formOf?_of_mem_instructionsOf hmem)
  refine setBlock_ends_of hblock ?_
  rw [Option.bind_some, hf]
  let linked := s.modify x (·.mapInstruction fun i => { i with block := some b })
  have hlinked : linked.naming = s.naming := naming_modify_same fun o => o.site?_mapInstruction _
  have hregistry : linked.registry f = s.registry f := registry_modify_value f
  have hsite' : linked.siteOf? x = some ⟨name, none⟩ :=
    (siteOf?_modify_same (fun o => o.site?_mapInstruction _) x).trans hsite
  refine (setFunction_registers hsite' (has_modify.mpr (hs.has_function hf)) hne
    (hregistry ▸ hnew)).mono (fun _ t ⟨ht, hx⟩ l => ?_) fun _ _ hf => hf
  refine ⟨?_, ?_⟩
  · rw [naming_modify_same fun o => o.site?_mapInstructions _, ht, hlinked]
  · rw [siteOf?_modify_same fun o => o.site?_mapInstructions _, hx]

end SsaDebugInfo
