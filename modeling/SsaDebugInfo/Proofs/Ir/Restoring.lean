import Mathlib.Order.BooleanAlgebra.Set
import SsaDebugInfo.Proofs.Ir.Apart
import SsaDebugInfo.Proofs.Records.Relocation

/-!
# Names that are given back

Where names are registered and values told apart, any number of values can leave their functions and
enter them again, in any order, and all are called what they were. In between the functions have
released the names of those that are out, and no others (`Store.Released`): so these names are free
when their values come back.

- `Released.ends_insert`, `Released.ends_diff`: one value leaves, or comes back.
- `place_restores`: an instruction is taken out of a block and placed in one of the same function.
- `setInstructions_restores`: the instructions of a block are set in another order.
-/

namespace SsaDebugInfo

open Act Store

variable {s t u : Store} {v x b c : ValueId} {f : FunctionId} {g : Option FunctionId}
  {out : Set ValueId}

namespace Store

/-- All values have the names and the functions that they had, and functions have the same names
registered, but for their order, and give out the same numbers. -/
structure NamesBack (s t : Store) : Prop extends s.SameNaming t where
  siteOf? : ∀ v, t.siteOf? v = s.siteOf? v

/-- The seat of a value is its name, if it is in a function. -/
theorem seat?_eq_siteOf? (s : Store) (v : ValueId) :
    s.seat? v = (s.siteOf? v).bind fun site => site.function.map (·, site.name) :=
  (Option.bind_assoc _ _ _).symm

/-- A value in a function has a name and a seat there. -/
theorem siteOf?_of_functionOf? (h : s.functionOf? v = some f) :
    ∃ name, s.seat? v = some (f, name) ∧ s.siteOf? v = some ⟨name, some f⟩ := by
  obtain ⟨name, hseat, _⟩ := exists_seat? h
  exact ⟨name, hseat, siteOf?_of_seat? hseat⟩

/-- A value has left or entered a function; others are called what they were, where they were. -/
structure Rehomes (v : ValueId) (s t : Store) : Prop extends s.Extends t where
  forms : s.SameForms t
  others : ∀ w, w ≠ v → t.siteOf? w = s.siteOf? w
  proper : s.Proper → t.Proper

instance : IsPreorder Store (Rehomes v) where
  refl s := ⟨.refl s, fun _ => rfl, fun _ _ => rfl, id⟩
  trans _ _ _ hst htu := {
    toExtends := hst.toExtends.trans htu.toExtends
    forms := fun w => (htu.forms w).trans (hst.forms w)
    others := fun w hw => (htu.others w hw).trans (hst.others w hw)
    proper := fun h => htu.proper (hst.proper h) }

theorem siteOf?_modify_function {h : Function → Function} (w : ValueId) :
    (s.modify f h).siteOf? w = s.siteOf? w := by
  rw [siteOf?, get?_modify_function, siteOf?]

/-- A value that changes its function changes no other value's. -/
theorem rehomes_setFunction (v : ValueId) (g : Option FunctionId) :
    (setFunction v g).Only (Rehomes v) := by
  refine only_setFunction (fun h _ s => ?_) (fun f base s => ?_) fun f name s => ?_
  · refine ⟨.modify v _, fun w => formOf?_modify (fun o => o.form?_mapSite _) w, fun w hw => ?_,
      places_keepsProper.value (fun o => o.core_mapSite h) (fun o => o.operands_mapSite h) s⟩
    rw [siteOf?, get?_modify_other _ _ hw, siteOf?]
  · exact ⟨.modify f _, fun w => formOf?_modify_function w, fun w _ => siteOf?_modify_function w,
      places_keepsProper.register f base s⟩
  · exact ⟨.modify f _, fun w => formOf?_modify_function w, fun w _ => siteOf?_modify_function w,
      places_keepsProper.unregister f name s⟩

/-! ## Values that are out -/

/-- Some values are in no function any more, and functions have released their names. All else is
called what it was. -/
structure Released (out : Set ValueId) (s t : Store) : Prop extends s.Extends t where
  forms : s.SameForms t
  proper : t.Proper
  siteOf? : ∀ v, v ∉ out → t.siteOf? v = s.siteOf? v
  left : ∀ v ∈ out, t.siteOf? v = (s.siteOf? v).map ({ · with function := none })
  mem_names : ∀ f name, name ∈ (t.registry f).names ↔
    name ∈ (s.registry f).names ∧ ∀ v ∈ out, s.seat? v ≠ some (f, name)
  nextName : ∀ f, (t.registry f).nextName = (s.registry f).nextName

namespace Released

theorem refl (hs : s.Proper) : s.Released ∅ s where
  toExtends := .refl s
  forms _ := rfl
  proper := hs
  siteOf? _ _ := rfl
  left _ h := h.elim
  mem_names _ _ := ⟨fun h => ⟨h, fun _ hv => hv.elim⟩, And.left⟩
  nextName _ := rfl

theorem functionOf? (h : s.Released out t) (hv : v ∉ out) : t.functionOf? v = s.functionOf? v :=
  functionOf?_of_siteOf? (h.siteOf? v hv)

/-- A value that changes, but neither its name nor its function. -/
theorem modify_value (h : s.Released out t) {k : Value → Value} (hform : ∀ o, (k o).form? = o.form?)
    (hsite : ∀ o, (k o).site? = o.site?) : s.Released out (t.modify v k) where
  toExtends := h.toExtends.trans (.modify v k)
  forms w := (formOf?_modify hform w).trans (h.forms w)
  proper := h.proper.of_registry fun f => registry_modify_value f
  siteOf? w hw := (siteOf?_modify_same hsite w).trans (h.siteOf? w hw)
  left w hw := (siteOf?_modify_same hsite w).trans (h.left w hw)
  mem_names f name := by
    rw [registry_modify_value]
    exact h.mem_names f name
  nextName f := by
    rw [registry_modify_value]
    exact h.nextName f

/-- When all are back, names are what they were. -/
theorem namesBack (h : s.Released ∅ t) (hs : s.Proper) : s.NamesBack t where
  seat? v := by rw [seat?_eq_siteOf?, h.siteOf? v (Set.notMem_empty v), ← seat?_eq_siteOf?]
  names f := by
    refine (List.perm_ext_iff_of_nodup (h.proper f).once (hs f).once).mpr fun name => ?_
    rw [h.mem_names]
    exact and_iff_left fun _ hv => hv.elim
  nextName := h.nextName
  siteOf? v := h.siteOf? v (Set.notMem_empty v)

section Moving

variable (h : s.Released out t) (hs : s.Registered) (hapart : s.Apart)
  (hv : s.functionOf? v = some f)

include h hs hapart hv

/-- A value leaves its function, unless it is out already. -/
theorem ends_insert :
    (setFunction v none).Ends t (fun _ u => s.Released (insert v out) u) fun _ _ => False := by
  obtain ⟨name, hseat, hsite⟩ := siteOf?_of_functionOf? hv
  by_cases hout : v ∈ out
  · have hleft := h.left v hout
    rw [hsite] at hleft
    unfold Ends
    rw [show (none : Option FunctionId) = Site.function ⟨name, none⟩ from rfl,
      run_setFunction_same hleft, Set.insert_eq_of_mem hout]
    exact h
  · -- no value that is out has this name, so that it is registered still
    have hname : name ∈ (t.registry f).names := by
      refine (h.mem_names f name).mpr ⟨hs v f name hseat, fun w hw hseat' => hout ?_⟩
      exact hapart w v _ hseat' hseat ▸ hw
    refine ((setFunction_releases ((h.siteOf? v hout).trans hsite) hname).and
      ((rehomes_setFunction v none).ends t)).mono (fun _ u ⟨⟨hnaming, hself⟩, hrehomes⟩ => ?_)
      fun _ _ hf => hf.1
    have hregistry : u.registry = (t.naming.leave v f name).registry :=
      congrArg Naming.registry hnaming
    refine {
      toExtends := h.toExtends.trans hrehomes.toExtends
      forms := fun w => (hrehomes.forms w).trans (h.forms w)
      proper := hrehomes.proper h.proper
      siteOf? := fun w hw => ?_
      left := fun w hw => ?_
      mem_names := fun e kept => ?_
      nextName := fun e => ?_ }
    · obtain ⟨hne, hw⟩ := not_or.mp hw
      exact (hrehomes.others w hne).trans (h.siteOf? w hw)
    · by_cases hwv : w = v
      · rw [hwv, hself, hsite]
        rfl
      · exact (hrehomes.others w hwv).trans (h.left w (hw.resolve_left hwv))
    · rw [hregistry, Naming.mem_names_leave (h.proper f).once]
      show kept ∈ (t.registry e).names ∧ _ ↔ _
      rw [h.mem_names, and_assoc, Set.forall_mem_insert, hseat, and_comm (b := _ ≠ _),
        Ne, Ne, Option.some_inj]
    · rw [← h.nextName, hregistry]
      show (if e = f then _ else t.registry e).nextName = _
      split
      · next he => rw [he]; rfl
      · rfl

/-- A value comes back to its function, unless it is there already, and gets its name. -/
theorem ends_diff (hclosed : s.Closed) (hproper : s.Proper) :
    (setFunction v (some f)).Ends t (fun _ u => s.Released (out \ {v}) u) fun _ _ => False := by
  obtain ⟨name, hseat, hsite⟩ := siteOf?_of_functionOf? hv
  have hregistered := hs v f name hseat
  by_cases hout : v ∈ out
  · have hne : name ≠ "" := by
      rintro rfl
      exact (hproper f).named hregistered
    have hfree : name ∉ (t.registry f).names := fun hname =>
      ((h.mem_names f name).mp hname).2 v hout hseat
    have hleft := h.left v hout
    rw [hsite] at hleft
    refine ((setFunction_registers hleft (h.has (hclosed.has_function hv)) hne hfree).and
      ((rehomes_setFunction v (some f)).ends t)).mono (fun _ u ⟨⟨hnaming, hself⟩, hrehomes⟩ => ?_)
      fun _ _ hf => hf.1
    have hregistry : u.registry = (t.naming.enter v f name).registry :=
      congrArg Naming.registry hnaming
    refine {
      toExtends := h.toExtends.trans hrehomes.toExtends
      forms := fun w => (hrehomes.forms w).trans (h.forms w)
      proper := hrehomes.proper h.proper
      siteOf? := fun w hw => ?_
      left := fun w hw => (hrehomes.others w hw.2).trans (h.left w hw.1)
      mem_names := fun e kept => ?_
      nextName := fun e => ?_ }
    · by_cases hwv : w = v
      · rw [hwv, hself, hsite]
      · exact (hrehomes.others w hwv).trans (h.siteOf? w fun hw' => hw ⟨hw', hwv⟩)
    · rw [hregistry, Naming.mem_names_enter]
      show kept ∈ (t.registry e).names ∨ _ ↔ _
      rw [h.mem_names]
      constructor
      · rintro (⟨hkept, hothers⟩ | heq)
        · exact ⟨hkept, fun w hw => hothers w hw.1⟩
        · -- no other value has the name that comes back
          obtain ⟨rfl, rfl⟩ := Prod.mk.inj heq
          exact ⟨hregistered, fun w hw hseat' => hw.2 (hapart w v _ hseat' hseat)⟩
      · rintro ⟨hkept, hothers⟩
        refine or_iff_not_imp_right.mpr fun hother => ⟨hkept, fun w hw => ?_⟩
        by_cases hwv : w = v
        · rw [hwv, hseat]
          exact fun heq => hother (Option.some_inj.mp heq)
        · exact hothers w ⟨hw, hwv⟩
    · rw [← h.nextName, hregistry]
      show (if e = f then _ else t.registry e).nextName = _
      split
      · next he => rw [he]; rfl
      · rfl
  · unfold Ends
    rw [show some f = Site.function ⟨name, some f⟩ from rfl,
      run_setFunction_same ((h.siteOf? v hout).trans hsite), Set.sdiff_singleton_eq_self hout]
    exact h

end Moving

/-! ## Instructions that are out -/

section Linking

variable (h : s.Released out t) (hs : s.Registered) (hapart : s.Apart)
  (hx : s.functionOf? x = some f)

include h hs hapart hx

/-- An instruction loses its block, and leaves its function. -/
theorem unlink :
    (setBlock x none).Ends t (fun _ u => s.Released (insert x out) u) fun _ _ => False := by
  refine setBlock_ends_of (by simp) ?_
  exact (h.modify_value (fun o => o.form?_mapInstruction _) fun o =>
    o.site?_mapInstruction _).ends_insert hs hapart hx

variable (hclosed : s.Closed) (hproper : s.Proper) (hc : s.functionOf? c = some f)
  (hin : c ∉ out)

include hclosed hproper hc hin

/-- An instruction gets a block of its function, and comes back to it. -/
theorem link :
    (setBlock x (some c)).Ends t (fun _ u => s.Released (out \ {x}) u) fun _ _ => False := by
  obtain ⟨o, ho, _⟩ := Option.bind_eq_some_iff.mp hc
  refine setBlock_ends_of ?_ ?_
  · rintro _ ⟨⟩
    exact h.has (has_value_iff.mpr ⟨o, ho⟩)
  · rw [Option.bind_some, h.functionOf? hin, hc]
    exact (h.modify_value (fun o => o.form?_mapInstruction _) fun o =>
      o.site?_mapInstruction _).ends_diff hs hapart hx hclosed hproper

end Linking

end Released

end Store

/-! ## Taking out and placing again -/

/-- The block and the instruction of a placement that puts an instruction into a block. -/
def Placement.put? : Placement → Option (ValueId × ValueId)
  | append b x | insertBefore b x _ | insertAfter b x _ => some (b, x)
  | _ => none

/-- A place that is looked for is found, or the list does not have what is given. -/
theorem indexIn_ends (hc : s.Has (.value c)) (slot : Slot) :
    (indexIn c slot).Ends s (fun _ t => t = s) fun fault t => fault = .notInList ∧ t = s := by
  obtain ⟨o, ho⟩ := has_value_iff.mp hc
  refine ends_fetch_bind ho ?_
  split
  · exact ends_pure rfl
  · exact ends_throw ⟨rfl, rfl⟩

/-- An instruction in the list of a block is taken out. -/
theorem removeFrom_releases (hs : s.Registered) (hapart : s.Apart) (hproper : s.Proper)
    (hx : s.formOf? x = some .instruction) (hf : s.functionOf? x = some f)
    (hmem : .ofValue x ∈ s.instructionsOf b) :
    (removeFrom b (.ofValue x)).Ends s (fun _ t => s.Released {x} t) fun _ _ => False := by
  obtain ⟨o, ho, _⟩ := formOf?_eq_block.mp (formOf?_of_mem_instructionsOf hmem)
  have hcontains : o.instructions.contains (.ofValue x) = true := by
    rw [instructionsOf, ho] at hmem
    exact List.contains_iff_mem.mpr hmem
  have hdetach : (detach (.ofValue x)).Ends s (fun _ t => s.Released {x} t) fun _ _ => False := by
    unfold Ends
    rw [run_detach hx, ← insert_empty_eq]
    exact (Released.refl hproper).unlink hs hapart hf
  refine ends_fetch_bind ho ?_
  rw [hcontains]
  exact hdetach.bind fun _ t ht => ends_update (ht.modify_value
    (fun o => o.form?_mapInstructions _) fun o => o.site?_mapInstructions _)

/-- An instruction is placed in a block of the function that it has left, whether or not the list of
the block has what it is to be placed next to. -/
theorem Store.Released.put (h : s.Released out t) (hs : s.Registered) (hapart : s.Apart)
    (hclosed : s.Closed) (hproper : s.Proper) (hx : s.functionOf? x = some f)
    (hc : s.functionOf? c = some f) (hin : c ∉ out) {p : Placement} (hp : p.put? = some (c, x)) :
    p.act.Ends t (fun _ u => s.Released (out \ {x}) u)
      fun fault u => (fault = .notInList ∧ p ≠ .append c x) ∧ s.Released (out \ {x}) u := by
  obtain ⟨o, ho, _⟩ := Option.bind_eq_some_iff.mp hc
  have hlink : (setBlock x (some c)).Ends t (fun _ u => s.Released (out \ {x}) u)
      fun fault u => (fault = .notInList ∧ p ≠ .append c x) ∧ s.Released (out \ {x}) u :=
    (h.link hs hapart hx hclosed hproper hc hin).sure
  have hlist : ∀ {u} (l : List Slot → List Slot), s.Released (out \ {x}) u →
      s.Released (out \ {x}) (u.modify c (·.mapInstructions l)) := fun l hu =>
    hu.modify_value (fun o => o.form?_mapInstructions l) fun o => o.site?_mapInstructions l
  have hbeside : ∀ {u} (anchor : Slot), p ≠ .append c x → s.Released (out \ {x}) u →
      (indexIn c anchor).Ends u (fun _ q => q = u) fun fault q =>
        (fault = .notInList ∧ p ≠ .append c x) ∧ s.Released (out \ {x}) q := fun anchor hne hu =>
    (indexIn_ends (hu.has (has_value_iff.mpr ⟨o, ho⟩)) anchor).mono (fun _ _ hq => hq)
      fun fault q hq => ⟨⟨hq.1, hne⟩, hq.2 ▸ hu⟩
  cases p with
  | append b y =>
    obtain ⟨rfl, rfl⟩ := Prod.mk.inj (Option.some_inj.mp hp)
    exact hlink.bind fun _ u hu => ends_update (hlist _ hu)
  | insertBefore b y anchor =>
    obtain ⟨rfl, rfl⟩ := Prod.mk.inj (Option.some_inj.mp hp)
    exact hlink.bind fun _ u hu => (hbeside anchor nofun hu).bind fun place q hq =>
      ends_update (hlist _ (hq ▸ hu))
  | insertAfter b y anchor =>
    obtain ⟨rfl, rfl⟩ := Prod.mk.inj (Option.some_inj.mp hp)
    exact hlink.bind fun _ u hu => (hbeside anchor nofun hu).bind fun place q hq =>
      ends_update (hlist _ (hq ▸ hu))
  | _ => cases hp

section Restoring

variable (hs : s.Registered) (hapart : s.Apart) (hclosed : s.Closed) (hproper : s.Proper)

include hs hapart hclosed hproper

/-- An instruction that is taken out of a block and placed in a block of its function gets its name
back, and the function the names that it had. -/
theorem place_restores (hx : s.formOf? x = some .instruction) (hf : s.functionOf? x = some f)
    (hmem : .ofValue x ∈ s.instructionsOf b) (hc : s.formOf? c = some .block)
    (hcf : s.functionOf? c = some f) {p : Placement} (hp : p.put? = some (c, x)) : (do
      removeFrom b (.ofValue x)
      p.act : Act Unit).Ends s (fun _ t => s.NamesBack t)
        fun fault t => (fault = .notInList ∧ p ≠ .append c x) ∧ s.NamesBack t := by
  have hne : c ∉ ({x} : Set ValueId) := by
    rintro rfl
    cases hc.symm.trans hx
  have hback : ∀ {t}, s.Released ({x} \ {x}) t → s.NamesBack t := fun ht => by
    rw [Set.sdiff_self] at ht
    exact ht.namesBack hproper
  exact (removeFrom_releases hs hapart hproper hx hf hmem).sure.bind fun _ t ht =>
    (ht.put hs hapart hclosed hproper hf hcf hne hp).mono (fun _ _ hu => hback hu)
      fun _ _ hu => ⟨hu.1, hback hu.2⟩

/-- Where the instructions of a block are in its function, they can be set in another order: all
names are released and come back. -/
theorem setInstructions_restores (hb : s.functionOf? b = some f)
    (hlist : ∀ slot ∈ s.instructionsOf b, ∃ x, slot = .ofValue x ∧ s.blockOf? x = some b ∧
      s.functionOf? x = some f) {insns : List Slot} (hperm : insns.Perm (s.instructionsOf b)) :
    (setInstructions b insns).Ends s (fun _ t => s.NamesBack t) fun _ _ => False := by
  obtain ⟨o, ho, _⟩ := Option.bind_eq_some_iff.mp hb
  have hinstructions : s.instructionsOf b = o.instructions := by
    rw [instructionsOf, ho]
    rfl
  rw [hinstructions] at hlist hperm
  -- a block that has instructions is none itself
  have hin : ∀ slot ∈ o.instructions, slot ≠ .ofValue b := by
    rintro slot hslot rfl
    obtain ⟨x, heq, hblock, _⟩ := hlist _ hslot
    obtain rfl : b = x := by simpa using heq
    have hform := formOf?_of_mem_instructionsOf (hinstructions ▸ hslot)
    cases hform.symm.trans (formOf?_of_blockOf? hblock)
  refine ends_fetch_bind ho ?_
  refine (ends_forM (fun before t => s.Released {x | .ofValue x ∈ before} t)
    (by simpa using Released.refl hproper) ?_).bind fun _ t ht => ends_update_bind ?_
  · rintro before slot after hl t ht
    obtain ⟨x, rfl, hblock, hx⟩ := hlist slot (by simp [hl])
    unfold Ends
    rw [run_detach ((ht.forms x).trans (formOf?_of_blockOf? hblock))]
    refine (ht.unlink hs hapart hx).mono (fun _ u hu => ?_) fun _ _ hf => hf
    have hset : {y | Slot.ofValue y ∈ before ++ [.ofValue x]} =
        insert x {y | .ofValue y ∈ before} := by
      ext y
      simp [or_comm]
    rwa [hset]
  · have hstart := ht.modify_value (v := b) (k := (·.mapInstructions fun _ => insns))
      (fun o => o.form?_mapInstructions _) fun o => o.site?_mapInstructions _
    refine (ends_forM (fun before u =>
      s.Released {x | .ofValue x ∈ o.instructions ∧ .ofValue x ∉ before} u)
      (by simpa using hstart) ?_).mono (fun _ u hu => ?_) fun _ _ hf => hf
    · rintro before slot after hl u hu
      obtain ⟨x, rfl, hblock, hx⟩ := hlist slot (hperm.subset (by simp [hl]))
      refine instructionIn_bind_ends ((hu.forms x).trans (formOf?_of_blockOf? hblock)) ?_
      refine (hu.link hs hapart hx hclosed hproper hb fun hmem => hin _ hmem.1 rfl).mono
        (fun _ q hq => ?_) fun _ _ hf => hf
      have hset : {y | Slot.ofValue y ∈ o.instructions ∧ .ofValue y ∉ before ++ [.ofValue x]} =
          {y | .ofValue y ∈ o.instructions ∧ .ofValue y ∉ before} \ {x} := by
        ext y
        simp [and_assoc]
      rwa [hset]
    · have hnone : {x | Slot.ofValue x ∈ o.instructions ∧ .ofValue x ∉ insns} = ∅ :=
        Set.eq_empty_of_forall_notMem fun x hx => hx.2 (hperm.mem_iff.mpr hx.1)
      rw [hnone] at hu
      exact hu.namesBack hproper

end Restoring

end SsaDebugInfo
