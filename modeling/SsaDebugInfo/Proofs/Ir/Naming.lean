import SsaDebugInfo.Proofs.Ir.Names
import SsaDebugInfo.Proofs.Ir.Rules

/-!
# Placing keeps names in step

What enters a function asks for a name there, and what leaves it releases its name. A value may
enter a function if the name that it asks for is behind the next number (`Store.MayEnter`); while
only such values enter functions, names stay in step, wherever an operation stops.

- `setFunction_named`, `setBlock_named`: names in step when links change.
- `behind_upholds`: placements by `Rule.behind` preserve that names are in step.
-/

namespace SsaDebugInfo

open Act Store

variable {s t u : Store} {v x : ValueId} {f : FunctionId} {b : Option ValueId}
  {g : Option FunctionId}

/-! ## What may enter a function -/

namespace Store

/-- The name and the function of a value, if it has such. -/
def siteOf? (s : Store) (v : ValueId) : Option Site :=
  (s.get? v).bind Value.site?

/-- The name that a value would ask for in a function is behind the next number there. -/
def MayEnter (s : Store) (f : FunctionId) (v : ValueId) : Prop :=
  ∀ site ∈ s.siteOf? v, Behind site.name (s.registry f).nextName

instance (s : Store) (f : FunctionId) (v : ValueId) : Decidable (s.MayEnter f v) :=
  inferInstanceAs (Decidable (∀ site ∈ s.siteOf? v, _))

/-- What might enter the given function still may; if none is given, so it is for all functions.
Nothing goes, and values stay what they are. -/
structure Admits (s : Store) (g : Option FunctionId) (t : Store) : Prop extends s.Extends t where
  form : ∀ {v form}, s.formOf? v = some form → t.formOf? v = some form
  mayEnter : ∀ f, g = none ∨ g = some f → ∀ v, s.MayEnter f v → t.MayEnter f v

namespace Admits

theorem refl (s : Store) (g : Option FunctionId) : s.Admits g s :=
  ⟨.refl s, fun h => h, fun _ _ _ h => h⟩

theorem trans (hst : s.Admits g t) (htu : t.Admits g u) : s.Admits g u where
  toExtends := hst.toExtends.trans htu.toExtends
  form h := htu.form (hst.form h)
  mayEnter f hf v h := htu.mayEnter f hf v (hst.mayEnter f hf v h)

/-- What leaves all functions open leaves one open. -/
theorem of_none (h : s.Admits none t) (g : Option FunctionId) : s.Admits g t where
  toExtends := h.toExtends
  form := h.form
  mayEnter f _ := h.mayEnter f (.inl rfl)

/-- A change of a value other than of its name. -/
theorem modify_value {h : Value → Value} (hform : ∀ o, (h o).form? = o.form?)
    (hname : ∀ o, (h o).site?.map Site.name = o.site?.map Site.name) :
    s.Admits none (s.modify v h) where
  toExtends := .modify v h
  form hv := (formOf?_modify hform _).trans hv
  mayEnter f _ w hw site hsite := by
    have hnames : ((s.modify v h).siteOf? w).map Site.name = (s.siteOf? w).map Site.name := by
      unfold siteOf?
      exact asked_modify (fun o : Option (Object .value) => (o.bind Value.site?).map Site.name)
        (fun o _ => hname o) w
    rw [hsite] at hnames
    obtain ⟨site', hsite', hsame⟩ := Option.map_eq_some_iff.mp hnames.symm
    rw [registry_modify_value, ← hsame]
    exact hw site' hsite'

/-- A change of a function in which the next number does not become smaller. -/
theorem modify_function {h : Function → Function} (hnext : ∀ o, o.nextName ≤ (h o).nextName) :
    s.Admits none (s.modify f h) where
  toExtends := .modify f h
  form hv := (formOf?_modify_function _).trans hv
  mayEnter e _ w hw site hsite := by
    have hle : (s.registry e).nextName ≤ ((s.modify f h).registry e).nextName := by
      unfold registry
      rw [get?_modify]
      split
      · next he =>
        subst he
        cases s.get? e with
        | none => exact Nat.le_refl _
        | some o => exact hnext o
      · exact Nat.le_refl _
    unfold siteOf? at hsite
    rw [get?_modify_function] at hsite
    exact (hw site hsite).mono hle

/-- A value that gets a name that is behind the next number. -/
theorem rename {name : String} (hname : Behind name (s.registry f).nextName) :
    s.Admits (some f) (s.modify v (·.mapSite fun site => { site with name })) where
  toExtends := .modify v _
  form hv := (formOf?_modify (fun o => o.form?_mapSite _) _).trans hv
  mayEnter e he w hw site hsite := by
    obtain rfl : f = e := by simpa using he
    rw [registry_modify_value]
    unfold siteOf? at hsite
    rw [get?_modify] at hsite
    split at hsite
    · obtain ⟨o, ho, hosite⟩ := Option.bind_eq_some_iff.mp hsite
      obtain ⟨p, _, rfl⟩ := Option.map_eq_some_iff.mp ho
      rw [Value.site?_mapSite] at hosite
      obtain ⟨_, _, rfl⟩ := Option.map_eq_some_iff.mp hosite
      exact hname
    · exact hw site hsite

end Admits

/-- A value of a function has a name there. -/
theorem exists_seat? (hf : s.functionOf? v = some f) :
    ∃ name, s.seat? v = some (f, name) ∧ s.nameOf? (.value v) = some name := by
  obtain ⟨o, ho, hof⟩ := Option.bind_eq_some_iff.mp hf
  obtain ⟨site, hsite, hfunction⟩ := Option.bind_eq_some_iff.mp hof
  refine ⟨site.name, ?_, ?_⟩
  · rw [seat?_eq ho, Value.seat?, hsite, Option.bind_some, hfunction]
    rfl
  · have hname : o.name? = o.site?.map Site.name := by
      obtain ⟨_, shape, _, _⟩ := o
      cases shape with
      | global => cases hsite
      | _ => rfl
    rw [nameOf?, ho, Option.bind_some, hname, hsite]
    rfl

/-- A value that has a seat is in the function of the seat. -/
theorem functionOf?_of_seat? {name : String} (h : s.seat? v = some (f, name)) :
    s.functionOf? v = some f := by
  obtain ⟨o, ho, hseat⟩ := Option.bind_eq_some_iff.mp h
  obtain ⟨site, hsite, hpair⟩ := Option.bind_eq_some_iff.mp hseat
  obtain ⟨g, hg, hpair⟩ := Option.map_eq_some_iff.mp hpair
  obtain ⟨rfl, _⟩ := Prod.mk.inj hpair
  exact Option.bind_eq_some_iff.mpr ⟨o, ho, Option.bind_eq_some_iff.mpr ⟨site, hsite, hg⟩⟩

/-- A value is in the function where it has its seat. -/
theorem functionOf?_eq_seat? (s : Store) (v : ValueId) :
    s.functionOf? v = (s.seat? v).map (·.1) := by
  cases hseat : s.seat? v with
  | some seat => exact functionOf?_of_seat? hseat
  | none =>
    cases hf : s.functionOf? v with
    | none => rfl
    | some f =>
      obtain ⟨name, hname, _⟩ := exists_seat? hf
      cases hname.symm.trans hseat

/-- A sound store in which names are in step. -/
structure Named (s : Store) : Prop where
  sound : s.Sound
  inStep : s.naming.InStep

end Store

/-! ## Links that change -/

/-- A link that is not what it was is what is given. -/
structure Store.Relinks (b : Option ValueId) (g : Option FunctionId) (s t : Store) : Prop where
  block : ∀ v, t.blockOf? v = s.blockOf? v ∨ t.blockOf? v = b
  function : ∀ v, t.functionOf? v = s.functionOf? v ∨ t.functionOf? v = g

section Relinks

instance : IsPreorder Store (Relinks b g) where
  refl _ := ⟨fun _ => .inl rfl, fun _ => .inl rfl⟩
  trans _ _ _ hst htu := by
    refine ⟨fun v => ?_, fun v => ?_⟩
    · rcases htu.block v with h | h
      · exact h ▸ hst.block v
      · exact .inr h
    · rcases htu.function v with h | h
      · exact h ▸ hst.function v
      · exact .inr h

/-- A change of a value relinks it if the block and the function stay or become the ones that are
meant. -/
theorem relinks_modify_value {h : Value → Value}
    (hblock : ∀ o, (h o).block? = o.block? ∨ (h o).block? = b)
    (hfunction : ∀ o, (h o).function? = o.function? ∨ (h o).function? = g) :
    s.Relinks b g (s.modify v h) := by
  refine ⟨fun w => ?_, fun w => ?_⟩
  · unfold blockOf?
    rw [get?_modify]
    split
    · cases s.get? w with
      | none => exact .inl rfl
      | some o => exact hblock o
    · exact .inl rfl
  · unfold functionOf?
    rw [get?_modify]
    split
    · cases s.get? w with
      | none => exact .inl rfl
      | some o => exact hfunction o
    · exact .inl rfl

theorem relinks_modify_function {h : Function → Function} : s.Relinks b g (s.modify f h) := by
  refine ⟨fun v => .inl ?_, fun v => .inl ?_⟩
  · rw [blockOf?, get?_modify_function, blockOf?]
  · rw [functionOf?, get?_modify_function, functionOf?]

theorem relinks_mapSite {h : Site → Site}
    (hh : ∀ site, (h site).function = site.function ∨ (h site).function = g) :
    s.Relinks b g (s.modify v (·.mapSite h)) := by
  refine relinks_modify_value (fun o => .inl (by simp [Value.block?])) fun o => ?_
  rw [Value.function?, Value.site?_mapSite, Value.function?]
  cases o.site? with
  | none => exact .inl rfl
  | some site => exact hh site

theorem relinks_setFunction (v : ValueId) (g : Option FunctionId) :
    (setFunction v g).Only (Relinks b g) :=
  only_setFunction (fun _ hh _ => relinks_mapSite hh) (fun _ _ _ => relinks_modify_function)
    fun _ _ _ => relinks_modify_function

theorem relinks_mapBlock (x : ValueId) (b : Option ValueId) :
    s.Relinks b g (s.modify x (·.mapInstruction fun i => { i with block := b })) := by
  refine relinks_modify_value (fun o => ?_) fun o => .inl (by simp [Value.function?])
  rw [Value.block?, Value.instruction?_mapInstruction, Value.block?]
  cases o.instruction? with
  | none => exact .inl rfl
  | some i => exact .inr rfl

/-- What is taken out of a block may lose its links. -/
theorem relinks_detach (slot : Slot) : (detach slot).Only (Relinks none none) := by
  refine (only_valueIn slot).bind fun id => (only_fetch id).bind fun o => ?_
  split
  · exact (only_update fun _ => relinks_mapBlock id none).bind fun _ => relinks_setFunction id none
  · split
    · exact only_update fun _ => relinks_mapSite fun _ => .inr rfl
    · exact only_throw _

theorem relinks_mapInstructions {c : ValueId} {h : List Slot → List Slot} :
    s.Relinks b g (s.modify c (·.mapInstructions h)) :=
  relinks_modify_value (fun o => .inl (by simp [Value.block?])) fun o =>
    .inl (by simp [Value.function?])

/-- Taking an instruction out of a block only takes links away. -/
theorem relinks_removeFrom (c : ValueId) (slot : Slot) :
    (removeFrom c slot).Only (Relinks none none) := by
  refine (only_fetch c).bind fun o => (only_require _).bind fun _ => ?_
  exact (relinks_detach slot).bind fun _ => only_update fun _ => relinks_mapInstructions

end Relinks

/-! ## Names when links change -/

/-- A value that changes, but neither its name nor its function. -/
theorem naming_modify_same {h : Value → Value} (hsite : ∀ o, (h o).site? = o.site?) :
    (s.modify v h).naming = s.naming := by
  refine Naming.ext (funext fun w => ?_) (funext fun g => registry_modify_value g)
  refine asked_modify (fun o : Option (Object .value) => o.bind Value.seat?) (fun o _ => ?_) w
  exact congrArg (fun site : Option Site => site.bind fun site =>
    site.function.map (·, site.name)) (hsite o)

/-- A change of a value that leaves its name and function leaves names in step. -/
theorem named_modify_value (hs : s.naming.InStep) {h : Value → Value}
    (hform : ∀ o, (h o).form? = o.form?) (hsite : ∀ o, (h o).site? = o.site?) :
    (s.modify v h).naming.InStep ∧ s.Admits none (s.modify v h) := by
  refine ⟨?_, .modify_value hform fun o => congrArg _ (hsite o)⟩
  rwa [naming_modify_same hsite]

/-- A function that changes, but not what it knows of names. -/
theorem naming_modify_function_same {h : Function → Function}
    (hregistry : ∀ o, (h o).registry = o.registry) : (s.modify f h).naming = s.naming := by
  refine Naming.ext (funext fun w => seat?_modify_function w) (funext fun g => ?_)
  exact asked_modify (fun o : Option (Object .function) => (o.map Function.registry).getD {})
    (fun o _ => hregistry o) g

/-- A change of a function that leaves its registry leaves names in step. -/
theorem named_modify_function (hs : s.naming.InStep) {h : Function → Function}
    (hregistry : ∀ o, (h o).registry = o.registry) :
    (s.modify f h).naming.InStep ∧ s.Admits none (s.modify f h) := by
  refine ⟨?_, .modify_function fun o => Nat.le_of_eq ?_⟩
  · rwa [naming_modify_function_same hregistry]
  · exact (congrArg Registry.nextName (hregistry o)).symm

/-- While all registered names are behind the next number, a fresh name is new. -/
theorem freshName_new {o : Function} (ho : s.get? f = some o)
    (h : ∀ name ∈ (s.registry f).names, Behind name (s.registry f).nextName) (base : String) :
    o.freshName base ∉ (s.registry f).names := by
  rw [registry_eq ho] at h ⊢
  exact o.freshName_not_mem h base

/-- A function gives a name that it has not registered. -/
theorem registerName_new (hs : s.naming.InStep) (base : String) :
    (registerName f base).Ends s (fun name _ => name ∉ (s.registry f).names) fun _ _ => True := by
  refine Reads.bind_ends reads_fetch (fun _ => trivial) fun o ho => ?_
  exact ends_update_bind (ends_pure (freshName_new ho (hs.behind f) base))

/-- A value that leaves a function is no more counted there, and its name is released. -/
theorem releaseName_named {name : String} (hs : s.naming.InStep)
    (hv : s.seat? v = some (f, name)) :
    (releaseName f name).Ends s
      (fun _ t => (t.naming.setSeat v none).InStep ∧ s.Admits none t ∧ t.get? v = s.get? v)
      fun _ _ => False := by
  have hname : name ∈ (s.registry f).names := hs.registered hv
  obtain ⟨p, hp, hregistry⟩ : ∃ p, s.get? f = some p ∧ s.registry f = p.registry := by
    cases hp : s.get? f with
    | some p => exact ⟨p, rfl, registry_eq hp⟩
    | none =>
      rw [registry, hp] at hname
      cases hname
  rw [hregistry] at hname
  have hrelease := naming_modify_function hp (·.unregister name)
  refine ends_fetch_bind hp ?_
  split
  · refine ends_update ⟨?_, .modify_function fun _ => Nat.le_refl _, ?_⟩
    · rw [hrelease]
      exact hs.leave hv (congrArg (fun r : Registry => r.names.erase name) hregistry).symm
        (congrArg Registry.nextName hregistry).symm
    · rw [get?_modify_function]
  · next hlost => exact (hlost (List.contains_iff_mem.mpr hname)).elim

/-- A value that is not counted in any function gets a name from one. -/
theorem takeName_named {o : Value} {site : Site} (hs : (s.naming.setSeat v none).InStep)
    (ho : s.get? v = some o) (hsite : o.site? = some site) (hfunction : site.function = some f)
    (hf : s.Has (.function f)) (hmay : s.MayEnter f v) :
    (do
      let name ← registerName f site.name
      update v (·.mapSite fun site => { site with name }) : Act Unit).Ends s
        (fun _ t => t.naming.InStep ∧ s.Admits (some f) t) fun _ _ => False := by
  obtain ⟨p, hp⟩ := Option.isSome_iff_exists.mp ((has_ref f).mp hf)
  have hregistry : s.registry f = p.registry := registry_eq hp
  have hnames : (s.registry f).names = p.names := congrArg Registry.names hregistry
  have hnext : (s.registry f).nextName = p.nextName := congrArg Registry.nextName hregistry
  have hnew : p.freshName site.name ∉ (s.registry f).names := freshName_new hp (hs.behind f) _
  have hbehind : Behind site.name p.nextName :=
    hnext ▸ hmay site (Option.bind_eq_some_iff.mpr ⟨o, ho, hsite⟩)
  have hnamed : Behind (p.freshName site.name) (p.register site.name).nextName :=
    p.behind_freshName hbehind
  let registered := s.modify f (·.register site.name)
  have hrun : (registerName f site.name).Ends s
      (fun name t => name = p.freshName site.name ∧ t = registered) fun _ _ => False :=
    ends_fetch_bind hp ⟨rfl, rfl⟩
  refine hrun.bind ?_
  rintro _ _ ⟨rfl, rfl⟩
  refine ends_update ⟨?_, ?_⟩
  · have ho' : registered.get? v = some o := by rwa [get?_modify_function]
    have hrename := naming_modify_value ho'
      (·.mapSite fun o => { o with name := p.freshName site.name })
    rw [Value.seat?_mapSite, hsite, Option.bind_some, hfunction] at hrename
    rw [hrename, naming_modify_function hp]
    refine hs.enter hnew ?_ ?_ hnamed
    · exact (p.names_register (hnames ▸ hnew)).trans (congrArg (· ++ _) hnames.symm)
    · exact hnext ▸ p.nextName_register site.name
  · have hregisters : s.Admits none registered := .modify_function fun o => o.nextName_register _
    have hregistered : registered.registry f = (p.register site.name).registry :=
      registry_eq (by rw [get?_modify_self, hp]; rfl)
    exact (hregisters.of_none _).trans (.rename (hregistered ▸ hnamed))

/-- The second half of `setFunction`: a value that is not counted in any function gets to know its
function, which gives it a name. -/
theorem enterFunction_named {o : Value} {site : Site} (hs : (s.naming.setSeat v none).InStep)
    (ho : s.get? v = some o) (hsite : o.site? = some site)
    (hg : ∀ f, g = some f → s.Has (.function f) ∧ s.MayEnter f v) :
    (do
      update v (·.mapSite fun site => { site with function := g })
      if let some new := g then
        let name ← registerName new site.name
        update v (·.mapSite fun site => { site with name }) : Act Unit).Ends s
          (fun _ t => t.naming.InStep ∧ s.Admits g t) fun _ _ => False := by
  let linked := s.modify v (·.mapSite fun site => { site with function := g })
  have hlink := naming_modify_value ho (·.mapSite fun site => { site with function := g })
  have hadmits : s.Admits none linked := .modify_value (fun o => o.form?_mapSite _) fun o => by
    rw [Value.site?_mapSite, Option.map_map]
    rfl
  refine ends_update_bind ?_
  cases g with
  | none =>
    rw [Value.seat?_mapSite, hsite] at hlink
    exact ends_pure ⟨hlink ▸ hs, hadmits⟩
  | some f =>
    obtain ⟨hf, hmay⟩ := hg f rfl
    have hunnamed : (linked.naming.setSeat v none).InStep := by
      rwa [hlink, Naming.setSeat_setSeat]
    have ho' : linked.get? v = some (o.mapSite fun site => { site with function := some f }) := by
      rw [get?_modify_self, ho]
      rfl
    have hsite' : (o.mapSite fun site => { site with function := some f }).site? =
        some { site with function := some f } := by
      rw [Value.site?_mapSite, hsite]
      rfl
    exact (takeName_named hunnamed ho' hsite' rfl (hadmits.has hf)
      (hadmits.mayEnter f (.inl rfl) v hmay)).mono
        (fun _ t ht => ⟨ht.1, (hadmits.of_none _).trans ht.2⟩) fun _ _ hf => hf

/-- A value may enter a function if its name is behind the next number there. -/
theorem setFunction_named (hs : s.naming.InStep)
    (hg : ∀ f, g = some f → s.Has (.function f) ∧ s.MayEnter f v) :
    (setFunction v g).Ends s (fun _ t => t.naming.InStep ∧ s.Admits g t) fun _ t => t = s := by
  refine Reads.bind_ends reads_fetch (fun _ => rfl) fun o ho => ?_
  split
  · exact ends_throw rfl
  · next site hsite =>
    split
    · dsimp only
      split
      · next old hold =>
        have hseat : s.seat? v = some (old, site.name) := by
          rw [seat?_eq ho, Value.seat?, hsite, Option.bind_some, hold]
          rfl
        refine Ends.bind ((releaseName_named hs hseat).mono (fun _ _ ht => ht)
          fun _ _ hf => hf.elim) fun _ t ⟨hunnamed, ht, hv⟩ => ?_
        have hg' : ∀ f, g = some f → t.Has (.function f) ∧ t.MayEnter f v := fun f hf =>
          ⟨ht.has (hg f hf).1, ht.mayEnter f (.inl rfl) v (hg f hf).2⟩
        exact (enterFunction_named hunnamed (hv.trans ho) hsite hg').mono
          (fun _ u hu => ⟨hu.1, (ht.of_none _).trans hu.2⟩) fun _ _ hf => hf.elim
      · exact (enterFunction_named (hs.forget v) ho hsite hg).mono (fun _ _ ht => ht)
          fun _ _ hf => hf.elim
    · exact ends_pure ⟨hs, .refl s g⟩

/-- An instruction may enter the function of a block; the block stays in it. -/
theorem setBlock_named (hs : s.naming.InStep)
    (hb : ∀ f, b.bind s.functionOf? = some f → s.Has (.function f) ∧ s.MayEnter f x) :
    (setBlock x b).Ends s (fun _ t => t.naming.InStep ∧ s.Admits (b.bind s.functionOf?) t ∧
      ∀ c, b = some c → t.functionOf? c = s.functionOf? c) fun _ t => t.naming.InStep := by
  let linked := s.modify x (·.mapInstruction fun i => { i with block := b })
  obtain ⟨hlinked, hadmits⟩ : linked.naming.InStep ∧ s.Admits none linked :=
    named_modify_value hs (fun o => o.form?_mapInstruction _) fun o => o.site?_mapInstruction _
  have hfunction : ∀ c, linked.functionOf? c = s.functionOf? c :=
    functionOf?_modify fun o => o.site?_mapInstruction _
  -- the link comes first and concerns no name, so that the function is entered as if from the start
  have henter : ∀ g, (∀ f, g = some f → s.Has (.function f) ∧ s.MayEnter f x) →
      (setFunction x g).Ends linked (fun _ t => t.naming.InStep ∧ s.Admits g t ∧
        ∀ c, t.functionOf? c = s.functionOf? c ∨ t.functionOf? c = g)
        fun _ t => t.naming.InStep := by
    intro g hg
    have hg' : ∀ f, g = some f → linked.Has (.function f) ∧ linked.MayEnter f x := fun f hf =>
      ⟨hadmits.has (hg f hf).1, hadmits.mayEnter f (.inl rfl) x (hg f hf).2⟩
    have hrelinks : (setFunction x g).Only (Relinks none g) := relinks_setFunction x g
    refine ((setFunction_named hlinked hg').and (hrelinks.ends linked)).mono
      (fun _ t ⟨⟨ht, hadmits'⟩, hlinks⟩ => ⟨ht, (hadmits.of_none g).trans hadmits', fun c => ?_⟩) ?_
    · rw [← hfunction]
      exact hlinks.function c
    · rintro _ _ ⟨rfl, _⟩
      exact hlinked
  refine ends_update_bind ?_
  cases b with
  | none =>
    exact (henter none fun _ h => nomatch h).mono
      (fun _ _ ht => ⟨ht.1, ht.2.1, fun _ h => nomatch h⟩) fun _ _ hf => hf
  | some c =>
    refine Reads.bind_ends reads_fetch (fun _ => hlinked) fun p hp => ?_
    have hpfunction : p.function? = s.functionOf? c := by
      rw [← hfunction, functionOf?, hp]
      rfl
    rw [hpfunction]
    refine (henter _ hb).mono (fun _ t ht => ⟨ht.1, ht.2.1, ?_⟩) fun _ _ hf => hf
    rintro _ ⟨⟩
    exact (ht.2.2 c).elim id id

/-- Detaching an instruction releases its name, so that names stay in step. -/
theorem detach_named (hs : s.naming.InStep) (slot : Slot) :
    (detach slot).Ends s (fun _ t => t.naming.InStep ∧ s.Admits none t)
      fun _ t => t.naming.InStep := by
  refine Reads.bind_ends reads_valueIn (fun _ => hs) fun id _ => ?_
  refine Reads.bind_ends reads_fetch (fun _ => hs) fun o ho => ?_
  split
  · exact (setBlock_named hs (by simp)).mono (fun _ _ ht => ⟨ht.1, ht.2.1⟩)
      fun _ _ hf => hf
  · split
    · next hsome =>
      -- the name stays registered
      obtain ⟨site, hsite⟩ := Option.isSome_iff_exists.mp hsome
      have hforget := naming_modify_value ho (·.mapSite fun site => { site with function := none })
      rw [Value.seat?_mapSite, hsite] at hforget
      refine ends_update ⟨hforget ▸ hs.forget id, .modify_value (fun o => o.form?_mapSite _) ?_⟩
      intro o
      rw [Value.site?_mapSite, Option.map_map]
      rfl
    · exact ends_throw hs

/-- Taking an instruction out of a block leaves names in step. -/
theorem removeFrom_named (hs : s.naming.InStep) (c : ValueId) (slot : Slot) :
    (removeFrom c slot).Ends s (fun _ t => t.naming.InStep ∧ s.Admits none t)
      fun _ t => t.naming.InStep := by
  refine Reads.bind_ends reads_fetch (fun _ => hs) fun o _ => ?_
  refine Reads.bind_ends reads_require (fun _ => hs) fun _ _ => ?_
  refine (detach_named hs slot).bind fun _ t ⟨ht, hst⟩ => ?_
  obtain ⟨hu, htu⟩ := named_modify_value (v := c) (h := (·.mapInstructions (·.erase slot))) ht
    (fun o => o.form?_mapInstructions _) fun o => o.site?_mapInstructions _
  exact ends_update ⟨hu, hst.trans htu⟩

/-! ## Placements -/

/-- What is given may enter a function, if there is one. -/
def Store.Welcomes (s : Store) (g : Option FunctionId) (l : List Slot) : Prop :=
  ∀ f ∈ g, ∀ slot ∈ l, ∀ v ∈ slot.value?, s.MayEnter f v

instance (s : Store) (g : Option FunctionId) (l : List Slot) : Decidable (s.Welcomes g l) :=
  inferInstanceAs (Decidable (∀ f ∈ g, ∀ slot ∈ l, ∀ v ∈ slot.value?, s.MayEnter f v))

/-- What is welcome in a function may enter it. -/
theorem Store.Welcomes.mayEnter {l : List Slot} (h : s.Welcomes g l) (hf : g = some f)
    (hv : .ofValue v ∈ l) : s.MayEnter f v :=
  h f hf _ hv v rfl

/-- What is placed may enter the function where it is placed. -/
def Placement.Welcome (s : Store) : Placement → Prop
  | setArguments f arguments => s.Welcomes (some f) arguments
  | addBlock f b => s.Welcomes (some f) [.ofValue b]
  | append b x | insertBefore b x _ | insertAfter b x _ =>
    s.Welcomes (s.functionOf? b) [.ofValue x]
  | remove _ _ => True
  | setInstructions b insns => s.Welcomes (s.functionOf? b) insns

instance Placement.decidableWelcome (s : Store) :
    (placement : Placement) → Decidable (placement.Welcome s)
  | setArguments .. => inferInstanceAs (Decidable (Welcomes _ _ _))
  | addBlock .. => inferInstanceAs (Decidable (Welcomes _ _ _))
  | append .. => inferInstanceAs (Decidable (Welcomes _ _ _))
  | insertBefore .. => inferInstanceAs (Decidable (Welcomes _ _ _))
  | insertAfter .. => inferInstanceAs (Decidable (Welcomes _ _ _))
  | remove .. => inferInstanceAs (Decidable True)
  | setInstructions .. => inferInstanceAs (Decidable (Welcomes _ _ _))

/-- The names of what is placed are behind the next number of the function where it is placed, and
nothing with a name in a function gets another name. -/
def Rule.behind : Rule where
  place s placement := decide (placement.Welcome s)
  move s x target := decide (s.Welcomes ((s.blockOf? target).bind s.functionOf?) [.ofValue x])
  arguments s arguments := decide (∀ slot ∈ arguments, ∀ v ∈ slot.value?, ∀ site ∈ s.siteOf? v,
    Behind site.name 1)
  instructions _ _ := true
  rename s v := (s.siteOf? v).isNone
  lost _ := false

section Placements

variable {c : ValueId}

/-- The old arguments of a function leave, and may enter again. -/
theorem setArguments_named (hs : s.naming.InStep) (hf : s.Has (.function f)) {arguments : List Slot}
    (hwelcome : s.Welcomes (some f) arguments) :
    (setArguments f arguments).Ends s (fun _ t => t.naming.InStep) fun _ t => t.naming.InStep := by
  refine Reads.bind_ends reads_fetch (fun _ => hs) fun o _ => ?_
  refine (ends_forM (fun _ t => t.naming.InStep ∧ s.Admits none t) ⟨hs, .refl s none⟩ ?_).bind
    fun _ t ⟨ht, hst⟩ => ?_
  · rintro _ slot _ _ t ⟨ht, hst⟩
    refine Reads.bind_ends reads_valueIn (fun _ => ht) fun v _ => ?_
    exact (setFunction_named (g := none) ht fun _ h => nomatch h).mono
      (fun _ u hu => ⟨hu.1, hst.trans hu.2⟩) fun _ _ hf => hf ▸ ht
  · obtain ⟨hu, htu⟩ := named_modify_function (f := f) (h := fun f => { f with arguments }) ht
      fun _ => rfl
    refine ends_update_bind ?_
    refine (ends_forM (fun _ t => t.naming.InStep ∧ s.Admits (some f) t)
      ⟨hu, (hst.trans htu).of_none _⟩ ?_).mono (fun _ _ h => h.1) fun _ _ hf => hf
    rintro before slot after hl t ⟨ht, hst⟩
    refine Reads.bind_ends reads_valueIn (fun _ => ht) fun v ⟨hslot, _⟩ => ?_
    have hmem : .ofValue v ∈ arguments := by simp [hl, hslot]
    refine (setFunction_named ht ?_).mono (fun _ u hu => ⟨hu.1, hst.trans hu.2⟩)
      fun _ _ hf => hf ▸ ht
    rintro _ ⟨⟩
    exact ⟨hst.has hf, hst.mayEnter f (.inr rfl) v (hwelcome.mayEnter rfl hmem)⟩

/-- A block that is welcome leaves names in step when a function takes it in. -/
theorem addBlock_named (hs : s.naming.InStep) (hf : s.Has (.function f))
    (hwelcome : s.Welcomes (some f) [.ofValue c]) :
    (addBlock f c).Ends s (fun _ t => t.naming.InStep) fun _ t => t.naming.InStep := by
  refine Ends.bind ((setFunction_named hs ?_).mono (fun _ _ ht => ht) fun _ _ hf => hf ▸ hs)
    fun _ t ht => ?_
  · rintro _ ⟨⟩
    exact ⟨hf, hwelcome.mayEnter rfl (List.mem_singleton.mpr rfl)⟩
  · obtain ⟨hu, _⟩ := named_modify_function (f := f)
      (h := fun f => { f with blocks := f.blocks ++ [c] }) ht.1 fun _ => rfl
    exact ends_update hu

/-- An instruction enters a block; the list of the block follows. -/
theorem linkTo_named (hs : s.Named) (hwelcome : s.Welcomes (s.functionOf? c) [.ofValue x]) :
    (setBlock x (some c)).Ends s
      (fun _ t => t.naming.InStep ∧
        ∀ h : List Slot → List Slot, (t.modify c (·.mapInstructions h)).naming.InStep)
      fun _ t => t.naming.InStep := by
  refine (setBlock_named hs.inStep fun f hf => ?_).mono (fun _ t ht => ⟨ht.1, fun h => ?_⟩)
    fun _ _ hf => hf
  · exact ⟨hs.sound.closed.has_function hf, hwelcome.mayEnter hf (List.mem_singleton.mpr rfl)⟩
  · exact (named_modify_value ht.1 (fun o => o.form?_mapInstructions _) fun o =>
      o.site?_mapInstructions _).1

/-- The old instructions of a block leave, and may enter again. -/
theorem setInstructions_named (hs : s.Named) {insns : List Slot}
    (hwelcome : s.Welcomes (s.functionOf? c) insns) :
    (setInstructions c insns).Ends s (fun _ t => t.naming.InStep) fun _ t => t.naming.InStep := by
  -- the block may forget its function when its old instructions leave
  let Open (t : Store) : Prop := t.naming.InStep ∧ s.Admits (s.functionOf? c) t ∧
    (t.functionOf? c = s.functionOf? c ∨ t.functionOf? c = none)
  refine Reads.bind_ends reads_fetch (fun _ => hs.inStep) fun o _ => ?_
  refine (ends_forM (fun _ => Open) ⟨hs.inStep, .refl s _, .inl rfl⟩ ?_).bind
    fun _ t ⟨ht, hst, hfunction⟩ => ?_
  · rintro _ slot _ _ t ⟨ht, hst, hfunction⟩
    refine ((detach_named ht slot).and ((relinks_detach slot).ends t)).mono
      (fun _ u ⟨⟨hu, htu⟩, hlinks⟩ => ⟨hu, hst.trans (htu.of_none _), ?_⟩) fun _ _ hf => hf.1
    rcases hlinks.function c with hsame | hnone
    · rwa [hsame]
    · exact .inr hnone
  · obtain ⟨hu, htu⟩ := named_modify_value (v := c) (h := (·.mapInstructions fun _ => insns)) ht
      (fun o => o.form?_mapInstructions _) fun o => o.site?_mapInstructions _
    have hlist : (t.modify c (·.mapInstructions fun _ => insns)).functionOf? c = t.functionOf? c :=
      functionOf?_modify (fun o => o.site?_mapInstructions _) c
    refine ends_update_bind ?_
    refine (ends_forM (fun _ => Open) ⟨hu, hst.trans (htu.of_none _), hlist ▸ hfunction⟩ ?_).mono
      (fun _ _ h => h.1) fun _ _ hf => hf
    rintro before slot after hl t ⟨ht, hst, hfunction⟩
    refine Reads.bind_ends reads_instructionIn (fun _ => ht) fun x ⟨hslot, _⟩ => ?_
    have hmem : .ofValue x ∈ insns := by simp [hl, hslot]
    refine (setBlock_named ht fun f hf => ?_).mono (fun _ u ⟨hu, htu, hkept⟩ => ⟨hu, ?_, ?_⟩)
      fun _ _ hf => hf
    · have hf : t.functionOf? c = some f := hf
      rcases hfunction with hsame | hnone
      · rw [hsame] at hf
        exact ⟨hst.has (hs.sound.closed.has_function hf),
          hst.mayEnter f (.inr hf) x (hwelcome.mayEnter hf hmem)⟩
      · rw [hnone] at hf
        cases hf
    · rw [Option.bind_some] at htu
      rcases hfunction with hsame | hnone
      · exact hst.trans (hsame ▸ htu)
      · exact hst.trans ((hnone ▸ htu).of_none _)
    · rwa [hkept c rfl]

/-- Placing what may enter leaves names in step. -/
theorem Store.Named.ends_place (hs : s.Named) (placement : Placement)
    (hneeds : ∀ slot ∈ placement.needs, s.HasIn slot) (h : placement.Welcome s) :
    placement.act.Ends s (fun _ t => t.Named) (Rule.behind.orElse Named) := by
  have hkeeps : placement.act.Keeps (.edits {}) s fun _ _ => True :=
    keeps_place placement hs.sound hneeds
  have hinStep : placement.act.Ends s (fun _ t => t.naming.InStep) fun _ t => t.naming.InStep := by
    cases placement with
    | setArguments f arguments =>
      exact setArguments_named hs.inStep (hasIn_some.mp (List.forall_mem_cons.mp hneeds).1) h
    | addBlock f c =>
      exact addBlock_named hs.inStep (hasIn_some.mp (List.forall_mem_cons.mp hneeds).1) h
    | append c x => exact (linkTo_named hs h).bind fun _ t ht => ends_update (ht.2 _)
    | insertBefore c x anchor =>
      exact (linkTo_named hs h).bind fun _ t ht =>
        Reads.bind_ends reads_indexIn (fun _ => ht.1) fun place _ => ends_update (ht.2 _)
    | insertAfter c x anchor =>
      exact (linkTo_named hs h).bind fun _ t ht =>
        Reads.bind_ends reads_indexIn (fun _ => ht.1) fun place _ => ends_update (ht.2 _)
    | remove c slot =>
      exact (removeFrom_named hs.inStep c slot).mono (fun _ _ ht => ht.1) fun _ _ hf => hf
    | setInstructions c insns => exact setInstructions_named hs h
  refine (hinStep.and hkeeps.ends).mono (fun _ t ht => ?_) fun _ t ht _ => ?_
  · exact ⟨ht.2.1.sound hs.sound, ht.1⟩
  · exact ⟨ht.2.1.sound hs.sound, ht.1⟩

/-- Taking something out of a block leaves names in step, and what may move still may. -/
theorem Store.Named.ends_removeFrom (hs : s.Named) (c : ValueId) (slot : Slot) :
    (removeFrom c slot).Ends s (fun _ t => t.Named ∧
      (∀ x form, s.formOf? x = some form → t.formOf? x = some form) ∧
      ∀ x target, slot = .ofValue x → Rule.behind.move s x target = true →
        Rule.behind.move t x target = true) (Rule.behind.orElse Named) := by
  have hkeeps : (SsaDebugInfo.removeFrom c slot).Keeps (.edits {}) s fun _ _ => True :=
    keeps_place (.remove c slot) hs.sound fun _ h => nomatch h
  have hends := ((removeFrom_named hs.inStep c slot).and
    ((relinks_removeFrom c slot).ends s)).and hkeeps.ends
  refine hends.mono (fun _ t ⟨⟨⟨ht, hst⟩, hlinks⟩, hedited⟩ => ?_) fun _ t hf _ =>
    ⟨hf.2.1.sound hs.sound, hf.1.1⟩
  refine ⟨⟨hedited.1.sound hs.sound, ht⟩, fun _ _ => hst.form, fun x target _ hmove => ?_⟩
  -- the block may have lost its function, and what it is the block of may have left it
  refine decide_eq_true fun f hf slot hslot v hv => ?_
  obtain ⟨d, hd, hfunction⟩ := Option.bind_eq_some_iff.mp hf
  have hd' : s.blockOf? target = some d := by
    rcases hlinks.block target with hsame | hnone
    · exact hsame ▸ hd
    · rw [hnone] at hd
      cases hd
  have hfunction' : s.functionOf? d = some f := by
    rcases hlinks.function d with hsame | hnone
    · exact hsame ▸ hfunction
    · rw [hnone] at hfunction
      cases hfunction
  have hbefore := of_decide_eq_true hmove
  exact hst.mayEnter f (.inl rfl) v
    (hbefore f (Option.bind_eq_some_iff.mpr ⟨d, hd', hfunction'⟩) slot hslot v hv)

end Placements

/-! ## Names in all that is done -/

theorem named_initial : Store.initial.Named where
  sound := sound_initial
  inStep := by
    have hseat : ∀ v, Store.initial.naming.seat v = none := by
      intro v
      show Store.initial.seat? v = none
      rw [Store.seat?, get?_initial v (by decide)]
      rfl
    have hregistry : ∀ f, Store.initial.naming.registry f = {} := by
      intro f
      show Store.initial.registry f = {}
      rw [Store.registry, get?_initial f (by decide)]
      rfl
    refine ⟨fun {v f name} h => ?_, fun {v w f name} h => ?_, fun f name h => ?_⟩
    · rw [hseat] at h
      cases h
    · rw [hseat] at h
      cases h
    · rw [hregistry] at h
      cases h

/-- A value keeps its function alive, where its name is registered. -/
theorem Store.seat?_of_collect {roots : List Slot} {name : String}
    (h : (s.collect roots).seat? v = some (f, name)) :
    s.seat? v = some (f, name) ∧ (s.collect roots).registry f = s.registry f := by
  rw [seat?_collect] at h
  split at h
  · next hlive =>
    have hfunction := live_of_functionOf? hlive (functionOf?_of_seat? h)
    exact ⟨h, by rw [registry_collect, if_pos hfunction]⟩
  · cases h

/-- Collection leaves names in step: a function that goes takes its values along. -/
theorem Store.Named.collect (hs : s.Named) (roots : List Slot) : (s.collect roots).Named where
  sound := hs.sound.collect
  inStep := by
    refine ⟨fun {v f name} h => ?_, fun {v w f name} hv hw => ?_, fun f name => ?_⟩
    · show name ∈ ((s.collect roots).registry f).names
      rw [(seat?_of_collect h).2]
      exact hs.inStep.registered (seat?_of_collect h).1
    · exact hs.inStep.distinct (seat?_of_collect hv).1 (seat?_of_collect hw).1
    · show name ∈ ((s.collect roots).registry f).names →
        Behind name ((s.collect roots).registry f).nextName
      rw [registry_collect]
      split
      · exact hs.inStep.behind f name
      · exact fun h => nomatch h

/-- A value that may enter a function still may after a change that moves nothing. -/
theorem Store.Unmoved.mayEnter (h : s.Unmoved t) (hv : s.Has (.value v)) (hmay : s.MayEnter f v) :
    t.MayEnter f v := by
  intro site hsite
  obtain ⟨o, ho⟩ := has_value_iff.mp hv
  obtain ⟨p, hp, hsame⟩ := h.site? ho
  rw [siteOf?, hp, Option.bind_some, hsame] at hsite
  rw [h.registry]
  exact hmay site (Option.bind_eq_some_iff.mpr ⟨o, ho, hsite⟩)

/-- A value without a name in a function has no such name to change. -/
theorem Store.unmoved_rename (hv : s.siteOf? v = none) (name : String) :
    s.Unmoved (s.modify v (·.mapSite fun site => { site with name })) := by
  refine .modify fun o ho => ?_
  have hunnamed : Value.site? o = none := by rwa [siteOf?, ho] at hv
  rw [Value.mapSite_eq_self hunnamed]
  exact SameStanding.refl _ _

/-- A value without a name in a function may get another name. -/
theorem Store.Named.rename (hs : s.Named) (hv : s.siteOf? v = none) (name : String)
    (h : Unmoved (s.modify v (·.mapSite fun site => { site with name })) t) (ht : t.Sound) :
    t.Named :=
  ⟨ht, ((unmoved_rename hv name).trans h).naming ▸ hs.inStep⟩

/-- A value that was behind everywhere may become the argument of a function that is new. -/
theorem Store.Unmoved.welcomes_arguments (h : s.Unmoved t) (hf : ¬ s.Has (.function f))
    {arguments : List Slot} (harguments : ∀ slot ∈ arguments, s.HasIn slot)
    (hbehind : ∀ slot ∈ arguments, ∀ v ∈ slot.value?, ∀ site ∈ s.siteOf? v, Behind site.name 1) :
    t.Welcomes (some f) arguments := by
  have hregistry : s.registry f = {} := by
    have hnone : s.get? f = none :=
      Option.not_isSome_iff_eq_none.mp fun hsome => hf ((has_ref f).mpr hsome)
    rw [registry, hnone]
    rfl
  intro g hg slot hslot v hv
  obtain rfl := Option.mem_some.mp hg
  obtain rfl : slot = .ofValue v := Slot.value?_eq_some_iff.mp hv
  refine h.mayEnter (hasIn_some.mp (harguments _ hslot)) fun site hsite => ?_
  rw [hregistry]
  exact hbehind _ hslot v rfl site hsite

/-- While only what is behind enters functions, names are in step. -/
theorem behind_upholds : Rule.behind.Upholds Named where
  initial := named_initial
  sound hs := hs.sound
  unmoved hs hst ht := ⟨ht, hst.naming ▸ hs.inStep⟩
  collect hs := hs.collect
  place hs p hneeds hallowed := hs.ends_place p hneeds (of_decide_eq_true hallowed)
  removeFrom hs c slot := hs.ends_removeFrom c slot
  rename hs hrename name _ hst ht := hs.rename (Option.isNone_iff_eq_none.mp hrename) name hst ht
  move := by
    intro s hs x target c _ _ hc hmove
    have h := of_decide_eq_true hmove
    rw [hc, Option.bind_some] at h
    exact ⟨decide_eq_true h, decide_eq_true h⟩
  move_unmoved := by
    intro s t x target hst hx hmove
    refine decide_eq_true fun f hf slot hslot v hv => ?_
    obtain rfl := List.mem_singleton.mp hslot
    obtain rfl := Option.mem_some.mp hv
    have hfunction : (t.blockOf? target).bind t.functionOf? =
        (s.blockOf? target).bind s.functionOf? := by
      rw [hst.blockOf?, funext hst.functionOf?]
    rw [hfunction] at hf
    exact hst.mayEnter hx ((of_decide_eq_true hmove).mayEnter hf (List.mem_singleton.mpr rfl))
  move_new := by
    intro s x o ho hsite target
    refine decide_eq_true fun f _ slot hslot v hv site hv' => ?_
    obtain rfl := List.mem_singleton.mp hslot
    obtain rfl := Option.mem_some.mp hv
    rw [siteOf?, ho, Option.bind_some, hsite] at hv'
    obtain rfl := Option.mem_some.mp hv'
    exact behind_empty _
  arguments hst hf hslots hallowed :=
    decide_eq_true (hst.welcomes_arguments hf hslots (of_decide_eq_true hallowed))
  instructions := by
    intro s t c l _ _ hfunction _
    refine decide_eq_true fun f hf => ?_
    rw [hfunction] at hf
    cases hf

end SsaDebugInfo
