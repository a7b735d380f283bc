import SsaDebugInfo.Proofs.Act.Ends
import SsaDebugInfo.Proofs.Ir.Arrangement
import SsaDebugInfo.Proofs.Ir.Placement

/-!
# What placing does to links and lists

Each way to place something leads from one arrangement to another. Where what is placed, and where
it is placed, is what it has to be, nothing but a name that is not registered can stop it half way.

- `Arrangement.house`, `Arrangement.link`: the links of one value change.
- `setFunction_ends`, `setBlock_ends`: what the actions that change links do.
- `appendTo_ends` and the like: what the actions that change lists as well do.
-/

namespace SsaDebugInfo

namespace Arrangement

variable {a : Arrangement} {b v x : ValueId} {f : FunctionId} {out into list list' : List Slot}
  {function : Option FunctionId}

/-- The arrangement where a value has another home. -/
def house (a : Arrangement) (v : ValueId) (home : Option (Form × FunctionId)) : Arrangement :=
  a.setStanding v { a.standing v with home }

/-- The arrangement where an instruction has other links. -/
def link (a : Arrangement) (x : ValueId) (block : Option ValueId) (function : Option FunctionId) :
    Arrangement :=
  a.setStanding x { a.standing x with home := function.map (.instruction, ·), block }

/-- Standings are the same if they are the same in the value that changes and in others. -/
theorem setStanding_eq {a' : Arrangement} {standing : Standing} (hself : a'.standing v = standing)
    (hothers : ∀ w, w ≠ v → a'.standing w = a.standing w) (hroster : a'.roster = a.roster) :
    a.setStanding v standing = a' := by
  refine Arrangement.ext (funext fun w => ?_) hroster.symm
  show (if w = v then standing else a.standing w) = a'.standing w
  split
  · next h => rw [h, hself]
  · next h => exact (hothers w h).symm

@[simp] theorem house_self : a.house v (a.standing v).home = a :=
  setStanding_self a v

/-- An instruction changes its links one after the other. -/
theorem house_setStanding {block : Option ValueId} :
    (a.setStanding x { a.standing x with block }).house x (function.map (.instruction, ·)) =
      a.link x block function := by
  symm
  refine setStanding_eq ?_ (fun w hw => ?_) rfl
  · simp [house, setStanding]
  · simp [house, setStanding, hw]

/-! ### Instructions leave and enter one after another -/

theorem exchange_nil : a.exchange b [] [] (a.standing b).instructions function = a := by
  refine Arrangement.ext (funext fun v => ?_) rfl
  show ({ home := if _ then _ else if _ then _ else _, block := if _ then _ else if _ then _ else _,
          instructions := if v = b then (a.standing b).instructions else _ } : Standing) = _
  simp only [List.not_mem_nil, if_false]
  split
  · next h => rw [h]
  · rfl

/-- Unlinking one more instruction is a larger exchange. -/
theorem link_exchange_out :
    (a.exchange b out [] list function).link x none none =
      a.exchange b (out ++ [.ofValue x]) [] list function := by
  refine setStanding_eq ?_ (fun v hv => ?_) rfl
  · simp [exchange]
  · simp [exchange, hv]

/-- Linking one more instruction is a larger exchange. -/
theorem link_exchange_into :
    (a.exchange b out into list function).link x (some b) function =
      a.exchange b out (into ++ [.ofValue x]) list function := by
  refine setStanding_eq ?_ (fun v hv => ?_) rfl
  · simp [exchange]
  · simp [exchange, hv]

/-- The first instruction to leave a block, as one of those that leave it. -/
theorem link_none : a.link x none none =
    a.exchange b [.ofValue x] [] (a.standing b).instructions function := by
  have h := @link_exchange_out a b x [] (a.standing b).instructions function
  rwa [exchange_nil] at h

/-- Linking an instruction alone is an exchange that brings it in. -/
theorem link_some : a.link x (some b) function =
    a.exchange b [] [.ofValue x] (a.standing b).instructions function := by
  have h := @link_exchange_into a b x [] [] (a.standing b).instructions function
  rwa [exchange_nil] at h

/-- In the end an exchange sets the list of the block. -/
theorem setStanding_exchange :
    (a.exchange b out into list function).setStanding b
        { (a.exchange b out into list function).standing b with instructions := list' } =
      a.exchange b out into list' function := by
  refine setStanding_eq ?_ (fun v hv => ?_) rfl
  · simp [exchange]
  · simp [exchange, hv]

/-! ### Arguments leave and enter one after another -/

theorem enlist_nil : a.enlist f [] [] (a.roster f).arguments = a := by
  refine Arrangement.ext (funext fun v => ?_) (funext fun g => ?_)
  · simp [enlist]
  · show (if g = f then { a.roster g with arguments := (a.roster f).arguments } else a.roster g) = _
    split
    · next h => rw [h]
    · rfl

/-- One more argument that leaves a function is a larger change of its arguments. -/
theorem house_enlist_out :
    (a.enlist f out [] list).house v none = a.enlist f (out ++ [.ofValue v]) [] list := by
  refine setStanding_eq ?_ (fun w hw => ?_) rfl
  · simp [enlist]
  · simp [enlist, hw]

/-- So is one more argument that enters it. -/
theorem house_enlist_into :
    (a.enlist f out into list).house v (some (.argument, f)) =
      a.enlist f out (into ++ [.ofValue v]) list := by
  refine setStanding_eq ?_ (fun w hw => ?_) rfl
  · simp [enlist]
  · simp [enlist, hw]

/-- In the end the function gets its list of arguments. -/
theorem setRoster_enlist :
    (a.enlist f out into list).setRoster f
        { (a.enlist f out into list).roster f with arguments := list' } =
      a.enlist f out into list' := by
  refine Arrangement.ext rfl (funext fun g => ?_)
  show (if g = f then _ else _) = (if g = f then _ else _)
  split
  · next h => simp [enlist, h]
  · next h => simp [enlist, h]

end Arrangement

namespace Store

variable {s t u : Store} {a b : Arrangement}

namespace Rearranges

theorem refl (s : Store) : s.Rearranges s.arrangement s :=
  ⟨.refl s, fun h => h, rfl⟩

theorem trans (hst : s.Rearranges a t) (htu : t.Rearranges b u) : s.Rearranges b u :=
  ⟨hst.toExtends.trans htu.toExtends, fun h => htu.form (hst.form h), htu.arrangement⟩

/-- A value that changes, but neither what it is nor where it stands. -/
theorem of_standing {v : ValueId} {f : Value → Value} (hform : ∀ o, (f o).form? = o.form?)
    (hstanding : ∀ o, (f o).standing = o.standing) :
    s.Rearranges s.arrangement (s.modify v f) where
  toExtends := .modify v f
  form h := (formOf?_modify hform _).trans h
  arrangement := by
    refine Arrangement.ext (funext fun w => ?_) (funext fun g => roster_modify_value g)
    exact asked_modify (fun o : Option (Object .value) => (o.map Value.standing).getD {})
      (fun o _ => hstanding o) w

/-- A function that changes, but not what its lists say. -/
theorem of_roster {id : FunctionId} {f : Function → Function}
    (hroster : ∀ o, (f o).roster = o.roster) : s.Rearranges s.arrangement (s.modify id f) where
  toExtends := .modify id f
  form h := (formOf?_modify_function _).trans h
  arrangement := by
    refine Arrangement.ext (funext fun w => standing_modify_function w) (funext fun g => ?_)
    exact asked_modify (fun o : Option (Object .function) => (o.map Function.roster).getD {})
      (fun o _ => hroster o) g

theorem roster (h : s.Rearranges a t) : t.roster = a.roster :=
  congrArg Arrangement.roster h.arrangement

end Rearranges

theorem function?_arrangement (v : ValueId) : s.arrangement.function? v = s.functionOf? v :=
  map_home_standing v

end Store

open Act Store Arrangement

variable {s t : Store}

/-- How placing faults where all is what it has to be: a name is not registered. -/
def nameLost (f : Fault) (_ : Store) : Prop :=
  f = .nameNotRegistered

/-! ## Links to functions -/

/-- What is there is looked at as what it is. -/
theorem valueIn_bind_ends {v : ValueId} (hv : s.Has (.value v)) {α : Type}
    {second : ValueId → Act α} {answers : α → Store → Prop} {faults : Fault → Store → Prop}
    (h : (second v).Ends s answers faults) :
    (valueIn (.ofValue v) >>= second).Ends s answers faults := by
  unfold Ends
  rw [run_valueIn_bind hv]
  exact h

/-- Names say nothing of where values stand. -/
theorem rearranges_rename (v : ValueId) (name : String) :
    s.Rearranges s.arrangement (s.modify v (·.mapSite fun site => { site with name })) :=
  .of_standing (fun o => o.form?_mapSite _) fun o => o.standing_rename fun _ => rfl

/-- Registering a name rearranges nothing. -/
theorem registerName_ends {f : FunctionId} (hf : s.Has (.function f)) (base : String) :
    (registerName f base).Ends s (fun _ t => s.Rearranges s.arrangement t) nameLost := by
  obtain ⟨o, ho⟩ := Option.isSome_iff_exists.mp ((has_ref f).mp hf)
  exact ends_fetch_bind ho (.of_roster fun _ => rfl)

/-- Releasing a name rearranges nothing, and may find it lost. -/
theorem releaseName_ends {f : FunctionId} (hf : s.Has (.function f)) (name : String) :
    (releaseName f name).Ends s (fun _ t => t = s.modify f (·.unregister name) ∧
      s.Rearranges s.arrangement t) nameLost := by
  obtain ⟨o, ho⟩ := Option.isSome_iff_exists.mp ((has_ref f).mp hf)
  refine ends_fetch_bind ho ?_
  split
  · exact ends_update ⟨rfl, .of_roster fun _ => rfl⟩
  · exact ends_throw rfl

section Function

variable {v : ValueId} {o : Value} {form : Form} {g : Option FunctionId}

/-- The second half of `setFunction`: the value gets to know its function, which gives it a name. -/
theorem enterFunction_ends (ho : s.get? v = some o) (hform : o.form? = some form)
    (hg : ∀ f, g = some f → s.Has (.function f)) (name : String) :
    (do
      update v (·.mapSite fun site => { site with function := g })
      if let some new := g then
        let name ← registerName new name
        update v (·.mapSite fun site => { site with name }) : Act Unit).Ends s
          (fun _ t => s.Rearranges (s.arrangement.house v (g.map (form, ·))) t) nameLost := by
  obtain ⟨site, hsite⟩ := Value.form?_eq_some hform
  have hlink : s.Rearranges (s.arrangement.house v (g.map (form, ·)))
      (s.modify v (·.mapSite fun site => { site with function := g })) := by
    have h := Rearranges.modify_value ho
      (f := fun o => o.mapSite fun site => { site with function := g }) fun o => o.form?_mapSite _
    rw [Value.standing_mapSite hform hsite, ← standing_eq ho] at h
    exact h
  refine ends_update_bind ?_
  cases g with
  | none => exact ends_pure hlink
  | some f =>
    -- the name that the function gives says nothing of where the value stands
    refine Ends.bind (registerName_ends (has_modify.mpr (hg f rfl)) name) fun name t ht => ?_
    refine ends_update ?_
    rw [← hlink.arrangement, ← ht.arrangement]
    exact (hlink.trans ht).trans (rearranges_rename v name)

/-- A value gets another home, or none. -/
theorem setFunction_ends (hform : s.formOf? v = some form)
    (hold : ∀ f, s.functionOf? v = some f → s.Has (.function f))
    (hg : ∀ f, g = some f → s.Has (.function f)) :
    (setFunction v g).Ends s
      (fun _ t => s.Rearranges (s.arrangement.house v (g.map (form, ·))) t) nameLost := by
  obtain ⟨o, ho, hoform⟩ := Option.bind_eq_some_iff.mp hform
  obtain ⟨site, hsite⟩ := Value.form?_eq_some hoform
  have hfunction : s.functionOf? v = site.function := by
    rw [functionOf?, ho]
    show o.site?.bind Site.function = _
    rw [hsite]
    rfl
  refine ends_fetch_bind ho ?_
  rw [hsite]
  dsimp only
  split
  · cases hsome : site.function with
    | none => exact enterFunction_ends ho hoform hg site.name
    | some old =>
      refine Ends.bind (releaseName_ends (hold old (hfunction.trans hsome)) site.name) ?_
      rintro _ t ⟨rfl, ht⟩
      have ho' : (s.modify old (·.unregister site.name)).get? v = some o := by
        rwa [get?_modify_function]
      refine (enterFunction_ends ho' hoform (fun f hf => ht.has (hg f hf)) site.name).mono
        (fun _ u hu => ?_) fun _ _ hf => hf
      rw [ht.arrangement] at hu
      exact ht.trans hu
  · next hsame =>
    -- the value is at home already
    have hhome : g.map (form, ·) = (s.arrangement.standing v).home := by
      show _ = (s.standing v).home
      rw [home_standing, hform, hfunction, not_not.mp hsame]
      rfl
    refine ends_pure ?_
    rw [hhome, house_self]
    exact .refl s

end Function

/-! ## Links to blocks -/

/-- An instruction gets other links: to a block, or to none, and to the function of the block. -/
theorem setBlock_ends (hs : s.Closed) {x : ValueId} (hx : s.formOf? x = some .instruction)
    {b : Option ValueId} (hb : ∀ c, b = some c → s.Has (.value c)) :
    (setBlock x b).Ends s (fun _ t =>
      s.Rearranges (s.arrangement.link x b (b.bind s.functionOf?)) t) nameLost := by
  obtain ⟨o, ho, hoform⟩ := Option.bind_eq_some_iff.mp hx
  have hlink := Rearranges.modify_value ho
    (f := fun o => o.mapInstruction fun i => { i with block := b }) fun o =>
      o.form?_mapInstruction _
  rw [Value.standing_mapBlock hoform, ← standing_eq ho] at hlink
  -- the link to a block does not tell of functions
  have hfunction : ∀ v,
      (s.modify x (·.mapInstruction fun i => { i with block := b })).functionOf? v =
        s.functionOf? v :=
    functionOf?_modify fun o => o.site?_mapInstruction _
  have hrest : ∀ g : Option FunctionId, (∀ f, g = some f → s.Has (.function f)) →
      (setFunction x g).Ends (s.modify x (·.mapInstruction fun i => { i with block := b }))
        (fun _ t => s.Rearranges (s.arrangement.link x b g) t) nameLost := by
    intro g hg
    refine (setFunction_ends (hlink.form hx) (fun f hf => ?_)
      (fun f hf => hlink.has (hg f hf))).mono (fun _ t ht => ?_) fun _ _ hf => hf
    · rw [hfunction] at hf
      exact hlink.has (hs.has_function hf)
    · rw [hlink.arrangement] at ht
      exact house_setStanding ▸ hlink.trans ht
  refine ends_update_bind ?_
  cases b with
  | none => exact hrest none fun _ h => nomatch h
  | some c =>
    obtain ⟨p, hp⟩ := has_value_iff.mp (hlink.has (hb c rfl))
    have hpfunction : p.function? = s.functionOf? c := by
      rw [← hfunction, functionOf?, hp]
      rfl
    refine ends_fetch_bind hp ?_
    rw [hpfunction]
    exact hrest _ fun f hf => hs.has_function hf

/-- An instruction that is taken out of a block loses its links. -/
theorem detach_ends (hs : s.Closed) {x : ValueId} (hx : s.formOf? x = some .instruction) :
    (detach (.ofValue x)).Ends s (fun _ t => s.Rearranges (s.arrangement.link x none none) t)
      nameLost := by
  obtain ⟨o, ho, hoform⟩ := Option.bind_eq_some_iff.mp hx
  obtain ⟨i, hi⟩ := Value.form?_eq_instruction.mp hoform
  unfold Ends
  rw [detach, run_valueIn_bind (has_of_formOf? hx), run_fetch_bind ho, hi]
  exact setBlock_ends hs hx fun _ h => nomatch h

/-! ## Instructions in blocks -/

/-- A block gets another list. -/
theorem rearranges_mapInstructions {b : ValueId} (hb : s.formOf? b = some .block)
    (f : List Slot → List Slot) :
    s.Rearranges (s.arrangement.setStanding b
        { s.arrangement.standing b with instructions := f (s.arrangement.standing b).instructions })
      (s.modify b (·.mapInstructions f)) := by
  obtain ⟨o, ho, hoform⟩ := Option.bind_eq_some_iff.mp hb
  have h := Rearranges.modify_value ho (f := fun o => o.mapInstructions f)
    fun o => o.form?_mapInstructions _
  rw [Value.standing_mapInstructions hoform, ← standing_eq ho] at h
  exact h

section Blocks

variable {b x : ValueId}

/-- The block has the instruction in its list besides those that were there. -/
def Store.Enters (s : Store) (b x : ValueId) (t : Store) : Prop :=
  ∃ list : List Slot, list.Perm (.ofValue x :: s.instructionsOf b) ∧
    s.Rearranges (s.arrangement.exchange b [] [.ofValue x] list (s.functionOf? b)) t

/-- Linking an instruction to a block, the list of which follows. -/
theorem linkTo_ends (hs : s.Closed) (hb : s.formOf? b = some .block)
    (hx : s.formOf? x = some .instruction) :
    (setBlock x (some b)).Ends s (fun _ t => t.instructionsOf b = s.instructionsOf b ∧
      ∀ f : List Slot → List Slot, s.Rearranges (s.arrangement.exchange b [] [.ofValue x]
        (f (s.instructionsOf b)) (s.functionOf? b)) (t.modify b (·.mapInstructions f)))
      nameLost := by
  refine (setBlock_ends hs hx fun c hc => ?_).mono (fun _ t ht => ?_) fun _ _ hf => hf
  · cases hc
    exact has_of_formOf? hb
  · have hlink : t.arrangement = s.arrangement.exchange b [] [.ofValue x] (s.instructionsOf b)
        (s.functionOf? b) := by
      rw [ht.arrangement, ← instructions_standing]
      exact link_some
    have hlist : t.instructionsOf b = s.instructionsOf b := by
      rw [← instructions_standing]
      show (t.arrangement.standing b).instructions = _
      rw [hlink]
      exact if_pos rfl
    refine ⟨hlist, fun f => ?_⟩
    have hf := rearranges_mapInstructions (ht.form hb) f
    rw [show (t.arrangement.standing b).instructions = s.instructionsOf b from
      (instructions_standing b).trans hlist, hlink, setStanding_exchange] at hf
    exact ht.trans hf

/-- An instruction that is appended to a block enters it. -/
theorem appendTo_ends (hs : s.Closed) (hb : s.formOf? b = some .block)
    (hx : s.formOf? x = some .instruction) :
    (appendTo b x).Ends s (fun _ t => s.Enters b x t) nameLost := by
  refine (linkTo_ends hs hb hx).bind fun _ t ⟨_, ht⟩ => ?_
  exact ends_update ⟨_, List.perm_append_singleton _ _, ht (· ++ [.ofValue x])⟩

/-- The place of what is in a list is found. -/
theorem indexIn_bind_ends {slot : Slot} (hslot : slot ∈ s.instructionsOf b) {α : Type}
    {second : Nat → Act α} {answers : α → Store → Prop} {faults : Fault → Store → Prop}
    (h : ∀ place, place < (s.instructionsOf b).length → (second place).Ends s answers faults) :
    (indexIn b slot >>= second).Ends s answers faults := by
  obtain ⟨o, ho, _⟩ := formOf?_eq_block.mp (formOf?_of_mem_instructionsOf hslot)
  have hlist : s.instructionsOf b = o.instructions := by
    rw [instructionsOf, ho]
    rfl
  rw [hlist] at hslot h
  obtain ⟨place, hplace⟩ := Option.isSome_iff_exists.mp (List.isSome_idxOf?.mpr hslot)
  obtain ⟨hlt, _⟩ := List.idxOf?_eq_some_iff.mp hplace
  unfold Ends
  rw [indexIn, bind_assoc, run_fetch_bind ho, hplace]
  exact h place hlt

/-- An instruction that is placed before one of the block enters it. -/
theorem insertBefore_ends (hs : s.Closed) (hb : s.formOf? b = some .block)
    (hx : s.formOf? x = some .instruction) {before : Slot} (hbefore : before ∈ s.instructionsOf b) :
    (insertBefore b x before).Ends s (fun _ t => s.Enters b x t) nameLost := by
  refine (linkTo_ends hs hb hx).bind fun _ t ⟨hlist, ht⟩ => ?_
  refine indexIn_bind_ends (hlist ▸ hbefore) fun place hplace => ?_
  exact ends_update ⟨_, List.perm_insertIdx _ _ (by rw [← hlist]; omega), ht _⟩

/-- An instruction that is placed behind one of the block enters it. -/
theorem insertAfter_ends (hs : s.Closed) (hb : s.formOf? b = some .block)
    (hx : s.formOf? x = some .instruction) {after : Slot} (hafter : after ∈ s.instructionsOf b) :
    (insertAfter b x after).Ends s (fun _ t => s.Enters b x t) nameLost := by
  refine (linkTo_ends hs hb hx).bind fun _ t ⟨hlist, ht⟩ => ?_
  refine indexIn_bind_ends (hlist ▸ hafter) fun place hplace => ?_
  exact ends_update ⟨_, List.perm_insertIdx _ _ (by rw [← hlist]; omega), ht _⟩

/-- An instruction is looked at as what it is. -/
theorem instructionIn_bind_ends (hx : s.formOf? x = some .instruction) {α : Type}
    {second : ValueId → Act α} {answers : α → Store → Prop} {faults : Fault → Store → Prop}
    (h : (second x).Ends s answers faults) :
    (instructionIn (.ofValue x) >>= second).Ends s answers faults := by
  obtain ⟨o, i, ho, hi⟩ := formOf?_eq_instruction.mp hx
  have hin : s.instructionIn? (.ofValue x) = some (x, i) :=
    instructionIn?_eq_some.mpr ⟨rfl, o, ho, hi⟩
  unfold Ends
  rw [run_bind, instructionIn, run_ask, hin]
  exact h

/-- Taking an instruction out of a block. Nothing happens if the block does not have it. -/
theorem removeFrom_ends (hs : s.Closed) {slot : Slot}
    (hlist : ∀ slot ∈ s.instructionsOf b, ∃ x, slot = .ofValue x ∧ s.formOf? x = some .instruction)
    (g : Option FunctionId) :
    (removeFrom b slot).Ends s (fun _ t => slot ∈ s.instructionsOf b ∧ s.Rearranges
      (s.arrangement.exchange b [slot] [] ((s.instructionsOf b).erase slot) g) t)
      fun f t => f = .nameNotRegistered ∨ t = s := by
  refine Reads.bind_ends reads_fetch (fun _ => .inr rfl) fun o ho => ?_
  have hinstructions : s.instructionsOf b = o.instructions := by
    rw [instructionsOf, ho]
    rfl
  refine Reads.bind_ends reads_require (fun _ => .inr rfl) fun _ hslot => ?_
  rw [List.contains_iff_mem, ← hinstructions] at hslot
  obtain ⟨x, rfl, hx⟩ := hlist slot hslot
  refine Ends.bind ((detach_ends hs hx).mono (fun _ _ ht => ht) fun _ _ hf => .inl hf)
    fun _ t ht => ends_update ⟨hslot, ?_⟩
  have hout : t.arrangement =
      s.arrangement.exchange b [.ofValue x] [] (s.instructionsOf b) g := by
    rw [ht.arrangement, ← instructions_standing]
    exact link_none
  have hf := rearranges_mapInstructions
    (ht.form (formOf?_of_mem_instructionsOf hslot)) (·.erase (.ofValue x))
  have hlist : (t.arrangement.standing b).instructions = s.instructionsOf b := by
    rw [hout]
    exact if_pos rfl
  rw [hlist, hout, setStanding_exchange] at hf
  exact ht.trans hf

/-- What moves things leaves a store closed. -/
theorem Act.Ends.closed {α : Type} {act : Act α} {answers answers' : α → Store → Prop}
    {faults : Fault → Store → Prop} (h : act.Ends s answers faults) (hs : s.Closed)
    (hkeeps : act.Keeps (.moves fun _ => true) s answers') :
    act.Ends s (fun a t => answers a t ∧ t.Closed) faults := by
  refine (h.and hkeeps.ends).mono (fun a t ht => ⟨ht.1, ?_⟩) fun f t hf => hf.1
  have hmoves : s.Moves (fun _ => true) t := ht.2.1
  exact hmoves.closed hs

/-- The old instructions of a block leave one after another, then the new ones enter. -/
theorem setInstructions_ends (hs : s.Closed) (hb : s.formOf? b = some .block) {insns : List Slot}
    (hinsns : ∀ slot ∈ s.instructionsOf b ++ insns,
      ∃ x, slot = .ofValue x ∧ s.formOf? x = some .instruction) :
    (setInstructions b insns).Ends s (fun _ t => s.Rearranges
      (s.arrangement.exchange b (s.instructionsOf b) insns insns (s.functionOf? b)) t)
      nameLost := by
  obtain ⟨o, ho, _⟩ := formOf?_eq_block.mp hb
  have hinstructions : o.instructions = s.instructionsOf b := by
    rw [instructionsOf, ho]
    rfl
  refine ends_fetch_bind ho ?_
  rw [hinstructions]
  -- a part of the old instructions has left
  have hleave : ((s.instructionsOf b).forM detach).Ends s (fun _ t => s.Rearranges
      (s.arrangement.exchange b (s.instructionsOf b) [] (s.instructionsOf b) (s.functionOf? b)) t ∧
      t.Closed) nameLost := by
    refine ends_forM (fun out t => s.Rearranges
      (s.arrangement.exchange b out [] (s.instructionsOf b) (s.functionOf? b)) t ∧ t.Closed) ?_ ?_
    · rw [← instructions_standing]
      exact ⟨exchange_nil (a := s.arrangement).symm ▸ .refl s, hs⟩
    · rintro out slot rest hl t ⟨ht, hclosed⟩
      obtain ⟨x, rfl, hx⟩ := hinsns slot (List.mem_append_left _ (by rw [hl]; simp))
      refine ((detach_ends hclosed (ht.form hx)).closed hclosed (keeps_detach hclosed rfl)).mono
        (fun _ u hu => ⟨?_, hu.2⟩) fun _ _ hf => hf
      have harrangement := hu.1
      rw [ht.arrangement, link_exchange_out] at harrangement
      exact ht.trans harrangement
  refine hleave.bind fun _ t hleft => ?_
  obtain ⟨ht, hclosed⟩ := hleft
  have hlist := rearranges_mapInstructions (ht.form hb) fun _ => insns
  rw [ht.arrangement, setStanding_exchange] at hlist
  have hmoves : t.Moves (fun _ => true) (t.modify b (·.mapInstructions fun _ => insns)) := by
    refine moves_mapInstructions (fun _ slot hslot => .inr ?_) fun l => by simp
    obtain ⟨x, rfl, hx⟩ := hinsns slot (List.mem_append_right _ hslot)
    exact hasIn_some.mpr (has_of_formOf? (ht.form hx))
  refine ends_update_bind ?_
  -- a part of the new instructions has entered
  refine (ends_forM (fun into t => s.Rearranges (s.arrangement.exchange b
    (s.instructionsOf b) into insns (s.functionOf? b)) t ∧ t.Closed)
      ⟨ht.trans hlist, hmoves.closed hclosed⟩ ?_).mono (fun _ _ h => h.1) fun _ _ hf => hf
  rintro into slot rest hl t ⟨ht, hclosed⟩
  obtain ⟨x, rfl, hx⟩ := hinsns slot (List.mem_append_right _ (by rw [hl]; simp))
  have hfunction : t.functionOf? b = s.functionOf? b := by
    have hmoved : ∀ l : List Slot, (∀ slot ∈ l, slot ∈ s.instructionsOf b ++ insns) →
        Slot.ofValue b ∉ l := by
      intro l hl hmem
      obtain ⟨x, hx, hform⟩ := hinsns _ (hl _ hmem)
      obtain rfl : b = x := by simpa using hx
      rw [hb] at hform
      cases hform
    rw [← function?_arrangement, ht.arrangement, function?_exchange, function?_arrangement]
    · exact hmoved into fun slot hslot => List.mem_append_right _ (by rw [hl]; simp [hslot])
    · exact hmoved _ fun slot hslot => List.mem_append_left _ hslot
  refine instructionIn_bind_ends (ht.form hx) ?_
  have hhas : ∀ c, some b = some c → t.Has (.value c) := by
    rintro _ ⟨⟩
    exact has_of_formOf? (ht.form hb)
  refine ((setBlock_ends hclosed (ht.form hx) hhas).closed hclosed
    (keeps_setBlock hclosed rfl hhas)).mono (fun _ u hu => ⟨?_, hu.2⟩) fun _ _ hf => hf
  have harrangement := hu.1
  rw [ht.arrangement, Option.bind_some, hfunction, link_exchange_into] at harrangement
  exact ht.trans harrangement

end Blocks

/-! ## Arguments and blocks in functions -/

section Functions

variable {f : FunctionId}

/-- The old arguments of a function leave one after another, then the new ones enter. -/
theorem setArguments_ends (hs : s.Closed) (hf : s.Has (.function f)) {arguments : List Slot}
    (harguments : ∀ slot ∈ (s.roster f).arguments ++ arguments,
      ∃ v, slot = .ofValue v ∧ s.formOf? v = some .argument) :
    (setArguments f arguments).Ends s (fun _ t => s.Rearranges
      (s.arrangement.enlist f (s.roster f).arguments arguments arguments) t) nameLost := by
  obtain ⟨o, ho⟩ := Option.isSome_iff_exists.mp ((has_ref f).mp hf)
  have hroster : o.arguments = (s.roster f).arguments := by
    rw [roster_eq ho]
    rfl
  refine ends_fetch_bind ho ?_
  rw [hroster]
  -- the loop invariant of the first pass: those that have been passed have left
  have hleave : ((s.roster f).arguments.forM fun slot => do
      setFunction (← valueIn slot) none).Ends s (fun _ t => s.Rearranges
        (s.arrangement.enlist f (s.roster f).arguments [] (s.roster f).arguments) t ∧ t.Closed)
        nameLost := by
    refine ends_forM (fun out t => s.Rearranges
      (s.arrangement.enlist f out [] (s.roster f).arguments) t ∧ t.Closed) ?_ ?_
    · exact ⟨enlist_nil (a := s.arrangement).symm ▸ .refl s, hs⟩
    · rintro out slot rest hl t ⟨ht, hclosed⟩
      obtain ⟨v, rfl, hv⟩ := harguments slot (List.mem_append_left _ (by rw [hl]; simp))
      have hhas : ∀ g, (none : Option FunctionId) = some g → t.Has (.function g) :=
        fun _ h => nomatch h
      refine valueIn_bind_ends (has_of_formOf? (ht.form hv)) ?_
      refine ((setFunction_ends (ht.form hv) (fun _ => hclosed.has_function) hhas).closed hclosed
        (keeps_setFunction rfl hhas)).mono (fun _ u hu => ⟨?_, hu.2⟩) fun _ _ hf => hf
      have harrangement := hu.1
      rw [ht.arrangement, Option.map_none, house_enlist_out] at harrangement
      exact ht.trans harrangement
  refine hleave.bind fun _ t ⟨ht, hclosed⟩ => ?_
  obtain ⟨p, hp⟩ := Option.isSome_iff_exists.mp ((has_ref f).mp (ht.has hf))
  have hlist := Rearranges.modify_function hp (f := fun f => { f with arguments })
  have hmoves : t.Moves (fun _ => true) (t.modify f fun f => { f with arguments }) :=
    moves_function fun hs o ho => { hs.function ho with
      arguments := fun slot hslot => by
        obtain ⟨v, rfl, hv⟩ := harguments slot (List.mem_append_right _ hslot)
        exact hasIn_some.mpr (has_of_formOf? (ht.form hv)) }
  have hentries : t.arrangement.setRoster f { p with arguments }.roster =
      s.arrangement.enlist f (s.roster f).arguments [] arguments := by
    rw [← setRoster_enlist, ← ht.arrangement]
    exact congrArg _ (congrArg (Roster.mk arguments) (congrArg Roster.blocks (roster_eq hp)).symm)
  refine ends_update_bind ?_
  -- and that of the second: those that have been passed have entered
  refine (ends_forM (fun into t => s.Rearranges (s.arrangement.enlist f
    (s.roster f).arguments into arguments) t ∧ t.Closed)
      ⟨ht.trans (hentries ▸ hlist), hmoves.closed hclosed⟩ ?_).mono
      (fun _ _ h => h.1) fun _ _ hf => hf
  rintro into slot rest hl t ⟨ht, hclosed⟩
  obtain ⟨v, rfl, hv⟩ := harguments slot (List.mem_append_right _ (by rw [hl]; simp))
  have hhas : ∀ g, some f = some g → t.Has (.function g) := by
    rintro _ ⟨⟩
    exact ht.has hf
  refine valueIn_bind_ends (has_of_formOf? (ht.form hv)) ?_
  refine ((setFunction_ends (ht.form hv) (fun _ => hclosed.has_function) hhas).closed hclosed
    (keeps_setFunction rfl hhas)).mono (fun _ u hu => ⟨?_, hu.2⟩) fun _ _ hf => hf
  have harrangement := hu.1
  rw [ht.arrangement, Option.map_some, house_enlist_into] at harrangement
  exact ht.trans harrangement

/-- A block enters a function. -/
theorem addBlock_ends (hs : s.Closed) (hf : s.Has (.function f)) {b : ValueId}
    (hb : s.formOf? b = some .block) :
    (addBlock f b).Ends s (fun _ t => s.Rearranges (s.arrangement.settle f b) t) nameLost := by
  have hhas : ∀ g, some f = some g → s.Has (.function g) := by
    rintro _ ⟨⟩
    exact hf
  refine (setFunction_ends hb (fun _ => hs.has_function) hhas).bind fun _ t ht => ends_update ?_
  obtain ⟨p, hp⟩ := Option.isSome_iff_exists.mp ((has_ref f).mp (ht.has hf))
  have hlist := Rearranges.modify_function hp (f := fun f => { f with blocks := f.blocks ++ [b] })
  have hroster : p.roster = s.roster f := by
    rw [← roster_eq hp, ht.roster]
    rfl
  have hsettled : t.arrangement.setRoster f { p with blocks := p.blocks ++ [b] }.roster =
      s.arrangement.settle f b := by
    rw [ht.arrangement]
    refine Arrangement.ext (funext fun v => ?_) (funext fun g => ?_)
    · show (if v = b then { s.standing b with home := some (.block, f) } else s.standing v) =
        { s.standing v with home := if v = b then some (.block, f) else (s.standing v).home }
      split
      · next h => rw [h]
      · rfl
    · show (if g = f then Roster.mk p.roster.arguments (p.roster.blocks ++ [b]) else s.roster g) = _
      rw [hroster]
      show _ =
        if g = f then { s.roster g with blocks := (s.roster g).blocks ++ [b] } else s.roster g
      split
      · next h => rw [h]
      · rfl
  exact ht.trans (hsettled ▸ hlist)

end Functions

end SsaDebugInfo
