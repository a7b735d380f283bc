import SsaDebugInfo.Proofs.Ir.Predecessors
import SsaDebugInfo.Proofs.Ir.Print
import SsaDebugInfo.Proofs.Records.Intact
import SsaDebugInfo.Proofs.Records.Rules

/-!
# Moving a record behind what it tracks

Where lists and links agree and the name of the record is registered, a record is moved behind an
instruction without a fault: it is taken out of its block, if it is in one, and placed anew, unless
it is where it should be. Its name goes with it.

- `Withdraws.listsAgree`, `Puts.listsAgree`: lists and links agree in between, and at the end.
- `SameNames`, `SameNaming`: what functions have registered before and after a record has left and
  entered again.
- `relocate_relocates`: what moving a record does, all together.
- `migrate_ends_of`: a migration is a relocation once the record has been given another wrapper.
-/

namespace SsaDebugInfo

namespace Store

variable {s t u : Store} {b x : ValueId}

/-- Lists and links agree once an instruction has left. -/
theorem Withdraws.listsAgree (h : s.Withdraws x t) (hs : s.ListsAgree) : t.ListsAgree where
  mem_iff b slot := by
    rw [h.instructionsOf, (hs.once b).mem_erase_iff, hs.mem_iff]
    constructor
    · rintro ⟨hne, v, rfl, hv⟩
      refine ⟨v, rfl, ?_⟩
      rwa [h.blockOf?, if_neg fun heq => hne (by rw [heq])]
    · rintro ⟨v, rfl, hv⟩
      rw [h.blockOf?] at hv
      split at hv
      · cases hv
      · next hne => exact ⟨by simpa using hne, v, rfl, hv⟩
  once b := by
    rw [h.instructionsOf]
    exact (hs.once b).erase _

/-- Once an instruction has left, the others stand where they stood. -/
theorem Withdraws.target {target : ValueId} (h : s.Withdraws x t) (hs : s.ListsAgree)
    (hne : target ≠ x) (hb : s.blockOf? target = some b) :
    t.blockOf? x = none ∧ t.blockOf? target = some b ∧ .ofValue target ∈ t.instructionsOf b := by
  have htarget : t.blockOf? target = some b := by rw [h.blockOf?, if_neg hne, hb]
  exact ⟨by rw [h.blockOf?, if_pos rfl], htarget, (h.listsAgree hs).mem_instructionsOf.mpr htarget⟩

/-- Lists and links agree once an instruction without a block has been put behind another one. -/
theorem Puts.listsAgree {a : Slot} (h : s.Puts b x (putAfter a (.ofValue x) (s.instructionsOf b)) t)
    (hs : s.ListsAgree) (ha : a ∈ s.instructionsOf b) (hnone : s.blockOf? x = none) :
    t.ListsAgree where
  mem_iff c slot := by
    have hlink : ∀ v, t.blockOf? v = some c ↔ v = x ∧ b = c ∨ s.blockOf? v = some c := by
      intro v
      rw [h.blockOf?]
      split
      · next hv => simp [hv, hnone]
      · next hv => simp [hv]
    have hlist : slot ∈ t.instructionsOf c ↔
        slot = .ofValue x ∧ b = c ∨ slot ∈ s.instructionsOf c := by
      rw [h.instructionsOf]
      split
      · next hc => simp [mem_putAfter ha, hc]
      · next hc => simp [Ne.symm hc]
    rw [hlist, hs.mem_iff]
    simp only [hlink]
    constructor
    · rintro (⟨rfl, hc⟩ | ⟨v, rfl, hv⟩)
      · exact ⟨x, rfl, .inl ⟨rfl, hc⟩⟩
      · exact ⟨v, rfl, .inr hv⟩
    · rintro ⟨v, rfl, ⟨rfl, hc⟩ | hv⟩
      · exact .inl ⟨rfl, hc⟩
      · exact .inr ⟨v, rfl, hv⟩
  once c := by
    have hx : .ofValue x ∉ s.instructionsOf b := by
      rw [hs.mem_instructionsOf, hnone]
      simp
    rw [h.instructionsOf]
    split
    · exact nodup_putAfter ha (hs.once b) hx
    · exact hs.once c

/-- Functions have the same names registered and give out the same numbers, and a value has the same
name in the same function. -/
structure SameNames (v : ValueId) (s t : Store) : Prop where
  names : ∀ f, (t.registry f).names.Perm (s.registry f).names
  nextName : ∀ f, (t.registry f).nextName = (s.registry f).nextName
  site : t.siteOf? v = s.siteOf? v

/-- All values have the same seats, and functions have the same names registered, but for their
order, and give out the same numbers. -/
structure SameNaming (s t : Store) : Prop where
  seat? : ∀ v, t.seat? v = s.seat? v
  names : ∀ f, (t.registry f).names.Perm (s.registry f).names
  nextName : ∀ f, (t.registry f).nextName = (s.registry f).nextName

theorem SameNaming.of_naming (h : t.naming = s.naming) : s.SameNaming t where
  seat? v := congrArg (·.seat v) h
  names f := .of_eq (congrArg (fun n : Naming => (n.registry f).names) h)
  nextName f := congrArg (fun n : Naming => (n.registry f).nextName) h

theorem SameNaming.trans (hst : s.SameNaming t) (htu : t.SameNaming u) : s.SameNaming u where
  seat? v := (htu.seat? v).trans (hst.seat? v)
  names f := (htu.names f).trans (hst.names f)
  nextName f := (htu.nextName f).trans (hst.nextName f)

theorem SameNaming.sameNames {v : ValueId} (h : s.SameNaming t)
    (hsite : t.siteOf? v = s.siteOf? v) : s.SameNames v t :=
  ⟨h.names, h.nextName, hsite⟩

/-- The record has been moved behind the instruction that it should track, and nothing else has. -/
structure Relocated (r target : ValueId) (s t : Store) : Prop where
  carries : ∀ a : Value, s.get? r = some a → ∃ b : Value, t.get? r = some b ∧ a.Carries b
  listsAgree : t.ListsAgree
  beside : ∀ b, s.blockOf? target = some b → [.ofValue target, .ofValue r] <:+: t.instructionsOf b
  rest : ∀ b, (t.instructionsOf b).filter (· != .ofValue r) =
    (s.instructionsOf b).filter (· != .ofValue r)
  unplaced : s.blockOf? target = none → ∀ b, t.instructionsOf b = s.instructionsOf b
  sameNames : (∀ b, s.blockOf? target = some b → s.functionOf? r = s.functionOf? b) →
    s.SameNames r t

/-- A record that is where it should be. -/
theorem Relocated.refl {r target : ValueId} (hs : s.ListsAgree)
    (h : ∀ b, s.blockOf? target = some b →
      [.ofValue target, .ofValue r] <:+: s.instructionsOf b) : s.Relocated r target s where
  carries a ha := ⟨a, ha, .refl a⟩
  listsAgree := hs
  beside := h
  rest _ := rfl
  unplaced _ _ := rfl
  sameNames _ := (SameNaming.of_naming rfl).sameNames rfl

/-- What happens before a record moves does not matter where nothing else moves. -/
theorem Relocated.of_unmoved {r target : ValueId} (h : t.Relocated r target u)
    (hst : s.Unmoved t) (hr : s.Has (.value r))
    (hcarries : ∀ a : Value, s.get? r = some a → ∃ b : Value, t.get? r = some b ∧ a.Carries b) :
    s.Relocated r target u where
  carries a ha := by
    obtain ⟨b, hb, hab⟩ := hcarries a ha
    obtain ⟨c, hc, hbc⟩ := h.carries b hb
    exact ⟨c, hc, hab.trans hbc⟩
  listsAgree := h.listsAgree
  beside b hb := h.beside b ((hst.blockOf? target).trans hb)
  rest b := by rw [h.rest, hst.instructionsOf]
  unplaced hnone b := by rw [h.unplaced ((hst.blockOf? target).trans hnone), hst.instructionsOf]
  sameNames hsame := by
    obtain ⟨hnames, hnext, hsite⟩ := h.sameNames fun b hb => by
      rw [hst.functionOf?, hst.functionOf?]
      exact hsame b ((hst.blockOf? target).symm.trans hb)
    obtain ⟨o, ho⟩ := has_value_iff.mp hr
    obtain ⟨p, hp, hsame⟩ := hst.site? ho
    refine ⟨fun f => hst.registry f ▸ hnames f, fun f => hst.registry f ▸ hnext f, ?_⟩
    rw [hsite, siteOf?_eq hp, siteOf?_eq ho, hsame]

end Store

open Act Store

variable {s t : Store} {b r x target : ValueId}

/-! ## Changing the block within a function -/

theorem siteOf?_of_seat? {f : FunctionId} {name : String} (h : s.seat? x = some (f, name)) :
    s.siteOf? x = some ⟨name, some f⟩ := by
  obtain ⟨o, ho, hseat⟩ := Option.bind_eq_some_iff.mp h
  obtain ⟨site, hsite, hin⟩ := Option.bind_eq_some_iff.mp hseat
  obtain ⟨g, hg, heq⟩ := Option.map_eq_some_iff.mp hin
  cases heq
  rw [siteOf?_eq ho, hsite, ← hg]

theorem functionOf?_of_siteOf? (h : t.siteOf? x = s.siteOf? x) :
    t.functionOf? x = s.functionOf? x := by
  have hsite : ∀ u : Store, u.functionOf? x = (u.siteOf? x).bind Site.function := by
    intro u
    cases hx : u.get? x with
    | none => simp [functionOf?, siteOf?, hx]
    | some o => simp [functionOf?, siteOf?, hx, Value.function?]
  rw [hsite t, hsite s, h]

/-- An instruction whose new block is in the function that it is in itself keeps its name there. -/
theorem setBlock_keepsNames (hx : s.formOf? x = some .instruction) {block : Option ValueId}
    (hb : ∀ c, block = some c → s.Has (.value c))
    (hsame : block.bind s.functionOf? = s.functionOf? x) :
    (setBlock x block).Ends s (fun _ t => t.naming = s.naming ∧ t.siteOf? x = s.siteOf? x)
      fun _ _ => False := by
  obtain ⟨o, ho, hform⟩ := Option.bind_eq_some_iff.mp hx
  obtain ⟨site, hsite⟩ := Value.form?_eq_some hform
  let linked := s.modify x (·.mapInstruction fun i => { i with block })
  have hlinked : linked.siteOf? x = s.siteOf? x :=
    siteOf?_modify_same (fun o => o.site?_mapInstruction _) x
  have hsite' : s.siteOf? x = some site := (siteOf?_eq ho).trans hsite
  have hfunction : s.functionOf? x = site.function := by
    rw [functionOf?, ho, Option.bind_some, Value.function?, hsite]
    rfl
  refine setBlock_ends_of hb ?_
  rw [hsame, hfunction]
  unfold Ends
  rw [run_setFunction_same (hlinked.trans hsite')]
  exact ⟨naming_modify_same fun o => o.site?_mapInstruction _, hlinked⟩

theorem removeFromParent_keepsNames (h : s.ListsAgree) (hx : s.formOf? x = some .instruction)
    (hloose : s.blockOf? x = none ∨ s.functionOf? x = none) :
    (removeFromParent x).Ends s (fun _ t => t.naming = s.naming ∧ t.siteOf? x = s.siteOf? x)
      fun _ _ => False := by
  refine removeFromParent_ends_of h (fun _ => ⟨rfl, rfl⟩) fun b hb => ?_
  have hfunction : s.functionOf? x = none := hloose.resolve_left (by simp [hb])
  refine (setBlock_keepsNames hx (by simp) (by simp [hfunction])).mono
    (fun _ t ⟨ht, hsite⟩ => ⟨?_, ?_⟩) fun _ _ hf => hf
  · rw [naming_modify_same fun o => o.site?_mapInstructions _, ht]
  · rw [siteOf?_modify_same fun o => o.site?_mapInstructions _, hsite]

theorem placeAfter_keepsNames (hs : s.Closed) (hx : s.formOf? x = some .instruction)
    (hnone : s.blockOf? x = none) (htarget : s.blockOf? target = some b)
    (hmem : .ofValue target ∈ s.instructionsOf b) (hsame : s.functionOf? b = s.functionOf? x) :
    (placeAfter x (.ofValue target)).Ends s
      (fun _ t => t.naming = s.naming ∧ t.siteOf? x = s.siteOf? x) fun _ _ => False := by
  refine placeAfter_ends_of hs hx hnone htarget hmem ?_
  have hb : ∀ c, some b = some c → s.Has (.value c) := by
    rintro _ ⟨⟩
    exact has_of_formOf? (formOf?_of_mem_instructionsOf hmem)
  refine (setBlock_keepsNames hx hb hsame).mono (fun _ t ⟨ht, hsite⟩ l => ⟨?_, ?_⟩)
    fun _ _ hf => hf
  · rw [naming_modify_same fun o => o.site?_mapInstructions _, ht]
  · rw [siteOf?_modify_same fun o => o.site?_mapInstructions _, hsite]

/-! ## Taking a record out and placing it anew -/

section Moving

variable (hs : s.Sound) (hlists : s.ListsAgree) (hr : s.formOf? r = some .instruction)
  (hname : ∀ f name, s.seat? r = some (f, name) → name ∈ (s.registry f).names)

include hs hlists hr hname

/-- A record leaves its block, and what goes on finds its name registered if it is still in a
function. -/
theorem removeFromParent_spec : (removeFromParent r).Ends s
    (fun _ t => t.Sound ∧ s.Withdraws r t ∧
      ∀ f name, t.seat? r = some (f, name) → name ∈ (t.registry f).names) fun _ _ => False := by
  have hanswers : (removeFromParent r).Ends s (fun _ _ => True) fun _ _ => False :=
    removeFromParent_ends_of hlists (fun _ => trivial) fun b _ =>
      setBlock_answers hs.closed hname hr (by simp)
  have hkeeps := (keeps_placing_removeFromParent (d := {}) (r := r) hs).ends
  refine (((removeFromParent_withdraws hs.closed hlists).and hkeeps).and hanswers).mono
    (fun _ t ⟨⟨ht, hst, _⟩, _⟩ => ⟨hst.1.sound hs, ht, fun f name hseat => ?_⟩) fun _ _ hf => hf.2
  rcases ht.left with rfl | hleft
  · exact hname f name hseat
  · rw [functionOf?_of_seat? hseat] at hleft
    cases hleft

variable (hproper : s.Proper) (hne : target ≠ r) (hb : s.blockOf? target = some b)

include hproper hne hb

/-- A record that is taken out of its block and placed anew in the function that it is in keeps its
name, and the function the names that it has registered. -/
theorem replace_sameNaming (hsame : s.functionOf? r = s.functionOf? b) : (do
    removeFromParent r
    placeAfter r (.ofValue target) : Act Unit).Ends s
      (fun _ t => s.SameNaming t ∧ t.siteOf? r = s.siteOf? r) fun _ _ => False := by
  have hmem := hlists.mem_instructionsOf.mpr hb
  have hbr : b ≠ r := by
    rintro rfl
    cases (formOf?_of_mem_instructionsOf hmem).symm.trans hr
  have hspec := removeFromParent_spec hs hlists hr hname
  by_cases hloose : s.blockOf? r = none ∨ s.functionOf? r = none
  · -- in no block or in no function, the record has no name to lose
    refine (hspec.also (removeFromParent_keepsNames hlists hr hloose)).bind ?_
    rintro _ u ⟨⟨hu, hwithdraws, _⟩, hnaming, hsite⟩
    obtain ⟨hnone, htarget, hmem'⟩ := hwithdraws.target hlists hne hb
    have hform := hwithdraws.form hr
    have hfunction := hwithdraws.functionOf? b hbr
    have hsame' : u.functionOf? b = u.functionOf? r := by
      rw [hfunction, ← hsame, functionOf?_of_siteOf? hsite]
    refine (placeAfter_keepsNames hu.closed hform hnone htarget hmem' hsame').mono ?_
      fun _ _ hf => hf
    rintro _ t ⟨ht, hsite'⟩
    exact ⟨.of_naming (ht.trans hnaming), hsite'.trans hsite⟩
  · -- the name is released, and taken again since it is free
    obtain ⟨hblock, hin⟩ := not_or.mp hloose
    obtain ⟨f, hf⟩ := Option.ne_none_iff_exists'.mp hin
    obtain ⟨name, hseat, _⟩ := exists_seat? hf
    have hregistered := hname f name hseat
    have hsite : s.siteOf? r = some ⟨name, some f⟩ := siteOf?_of_seat? hseat
    refine (hspec.also (removeFromParent_releases hlists hblock hsite hregistered)).bind ?_
    rintro _ u ⟨⟨hu, hwithdraws, _⟩, hnaming, hsite'⟩
    obtain ⟨hnone, htarget, hmem'⟩ := hwithdraws.target hlists hne hb
    have hform := hwithdraws.form hr
    have hfunction := hwithdraws.functionOf? b hbr
    have hregistry : (u.registry f).names = (s.registry f).names.erase name := by
      have hnames := congrArg (fun n : Naming => (n.registry f).names) hnaming
      exact hnames.trans (by simp [Naming.leave, Naming.setRegistry, Naming.setSeat, Store.naming])
    have hnew : name ∉ (u.registry f).names := by
      rw [hregistry, (hproper f).once.mem_erase_iff]
      simp
    have hnonempty : name ≠ "" := fun h => (hproper f).named (h ▸ hregistered)
    refine (placeAfter_registers hu.closed hform hnone htarget hmem'
      (hfunction.trans (hsame.symm.trans hf)) hsite' hnonempty hnew).mono ?_ fun _ _ hf => hf
    rintro _ t ⟨ht, hsite''⟩
    have hentered : ∀ g, t.registry g = ((s.naming.leave r f name).enter r f name).registry g :=
      fun g => congrArg (fun n : Naming => n.registry g) (hnaming ▸ ht)
    have hseats : ∀ v, t.seat? v = ((s.naming.leave r f name).enter r f name).seat v :=
      fun v => congrArg (fun n : Naming => n.seat v) (hnaming ▸ ht)
    refine ⟨⟨fun v => ?_, fun g => ?_, fun g => ?_⟩, hsite''.trans hsite.symm⟩
    · rw [hseats, Naming.seat_enter_leave hseat]
      rfl
    · rw [hentered]
      exact (Naming.enter_leave hregistered g).1
    · rw [hentered]
      exact (Naming.enter_leave hregistered g).2

/-- A record is taken out of its block, if it is in one, and placed right behind an instruction. -/
theorem replace_relocates : (do
    removeFromParent r
    placeAfter r (.ofValue target) : Act Unit).Ends s (fun _ t => s.Relocated r target t)
      fun _ _ => False := by
  let replace : Act Unit := do
    removeFromParent r
    placeAfter r (.ofValue target)
  -- what is kept, where the record ends up and what it is called come from one lemma each
  have hkeeps : replace.Keeps (.placing {} r) s fun _ _ => True := by
    refine (keeps_placing_removeFromParent hs).bind fun _ u hu _ => ?_
    have hu' := hu.1.sound hs
    exact keeps_placeAfter hu'.closed fun c hc =>
      keeps_placing_insertAfter hu' hc (hu.1.has (has_of_formOf? hr)) _
  have hplaces : replace.Ends s (fun _ t => t.ListsAgree ∧
      [.ofValue target, .ofValue r] <:+: t.instructionsOf b) fun _ _ => False := by
    refine (removeFromParent_spec hs hlists hr hname).bind fun _ u ⟨hu, hwithdraws, hname'⟩ => ?_
    obtain ⟨hnone, htarget, hmem⟩ := hwithdraws.target hlists hne hb
    have hform := hwithdraws.form hr
    have hblock : ∀ c, some b = some c → u.Has (.value c) := by
      rintro _ ⟨⟩
      exact has_of_formOf? (formOf?_of_mem_instructionsOf hmem)
    have hanswers : (placeAfter r (.ofValue target)).Ends u (fun _ _ => True) fun _ _ => False :=
      placeAfter_ends_of hu.closed hform hnone htarget hmem <|
        (setBlock_answers hu.closed hname' hform hblock).mono (fun _ _ _ _ => trivial)
          fun _ _ hf => hf
    refine (hanswers.also (placeAfter_puts hu.closed hform hnone htarget hmem)).mono
      (fun _ t ⟨_, ht⟩ => ⟨ht.listsAgree (hwithdraws.listsAgree hlists) hmem hnone, ?_⟩)
      fun _ _ hf => hf
    rw [ht.instructionsOf, if_pos rfl]
    exact infix_putAfter_self _ hmem
  have hnames : replace.Ends s
      (fun _ t => s.functionOf? r = s.functionOf? b → s.SameNames r t) fun _ _ => True := by
    by_cases hsame : s.functionOf? r = s.functionOf? b
    · exact (replace_sameNaming hs hlists hr hname hproper hne hb hsame).mono
        (fun _ _ ht _ => ht.1.sameNames ht.2) fun _ _ _ => trivial
    · exact (Ends.run replace s).mono (fun _ _ _ h => absurd h hsame) fun _ _ _ => trivial
  refine ((hplaces.also hkeeps.ends).also hnames).mono
    (fun _ t ⟨⟨⟨hlists', hadjacent⟩, hst, _⟩, hsame⟩ => ?_) fun _ _ hf => hf
  have hblock : ∀ {c}, s.blockOf? target = some c → b = c :=
    fun hc => Option.some_inj.mp (hb.symm.trans hc)
  exact {
    carries := fun _ ha => hst.2.carries ha
    listsAgree := hlists'
    beside := fun c hc => hblock hc ▸ hadjacent
    rest := hst.2.lists
    unplaced := fun hnone => nomatch hnone.symm.trans hb
    sameNames := fun h => hsame (h b hb) }

end Moving

/-! ## Relocation -/

/-- What follows an instruction in its block is what comes after its first place there. -/
theorem nextInstruction_ends (hb : s.blockOf? x = some b)
    (hmem : .ofValue x ∈ s.instructionsOf b) :
    (nextInstruction x).Ends s (fun next t => t = s ∧
      next = (s.instructionsOf b)[(s.instructionsOf b).idxOf (.ofValue x) + 1]?.join)
      fun _ _ => False := by
  obtain ⟨o, ho, _⟩ := formOf?_eq_block.mp (formOf?_of_mem_instructionsOf hmem)
  have hlist : s.instructionsOf b = o.instructions := by
    rw [instructionsOf, ho]
    rfl
  refine ends_get_bind ?_
  rw [hb]
  refine ends_run_bind (run_indexIn hmem) (ends_fetch_bind ho ?_)
  rw [hlist]
  exact ends_pure ⟨rfl, rfl⟩

/-- Moving a record behind an instruction is nothing if it stands there or the instruction is in no
block; else it is taken out of its block and placed anew. -/
theorem relocate_ends_of (hlists : s.ListsAgree) {answers : Unit → Store → Prop}
    {faults : Fault → Store → Prop}
    (hstays : (∀ b, s.blockOf? target = some b →
      [.ofValue target, .ofValue r] <:+: s.instructionsOf b) → answers () s)
    (hmoves : ∀ b, s.blockOf? target = some b → (do
      removeFromParent r
      placeAfter r (.ofValue target) : Act Unit).Ends s answers faults) :
    (relocate r (.ofValue target)).Ends s answers faults := by
  refine ends_get_bind ?_
  split
  · next hin =>
    -- what is no instruction stands in no block, so nothing is asked of the record
    have hnone : s.blockOf? target = none := by
      cases hb : s.blockOf? target with
      | none => rfl
      | some b =>
        obtain ⟨o, i, ho, hi⟩ := formOf?_eq_instruction.mp (formOf?_of_blockOf? hb)
        cases hin.symm.trans (instructionIn?_eq_some.mpr ⟨rfl, o, ho, hi⟩)
    exact ends_pure (hstays fun b hb => nomatch hnone.symm.trans hb)
  · next id i hin =>
    obtain ⟨hid, o, ho, hi⟩ := instructionIn?_eq_some.mp hin
    obtain rfl : target = id := by simpa using hid
    have hblock : s.blockOf? target = i.block :=
      blockOf?_of_instruction? (by rw [instruction?, ho]; exact hi)
    cases hb : i.block with
    | none => exact ends_pure (hstays fun b hb' => by simp [hblock, hb] at hb')
    | some b =>
      rw [hb] at hblock
      have hmem := hlists.mem_instructionsOf.mpr hblock
      refine Ends.bind ((nextInstruction_ends hblock hmem).mono (fun _ _ h => h)
        fun _ _ hf => hf.elim) fun next t ⟨ht, hnext⟩ => ?_
      subst ht
      split
      · exact hmoves b hblock
      · next heq =>
        -- the record is what follows the target already
        refine ends_pure (hstays fun c hc => ?_)
        obtain rfl : b = c := Option.some_inj.mp (hblock.symm.trans hc)
        rw [hnext] at heq
        exact infix_of_getElem? hmem (Option.join_eq_some_iff.mp (not_not.mp heq))

/-- Moving a record behind the instruction that it should track does not fault, and moves the record
alone. -/
theorem relocate_relocates (hs : s.Sound) (hlists : s.ListsAgree) (hregistered : s.Registered)
    (hproper : s.Proper) (hr : s.formOf? r = some .instruction) (hne : target ≠ r) :
    (relocate r (.ofValue target)).Ends s (fun _ t => s.Relocated r target t)
      fun _ _ => False :=
  relocate_ends_of hlists (.refl hlists) fun _ hb =>
    replace_relocates hs hlists hr (fun f name => hregistered r f name) hproper hne hb

/-- A record that is moved within the function that it is in keeps its name, and so does all
else. -/
theorem relocate_sameNaming (hs : s.Sound) (hlists : s.ListsAgree) (hregistered : s.Registered)
    (hproper : s.Proper) (hr : s.formOf? r = some .instruction) (hne : target ≠ r)
    (hsame : ∀ b, s.blockOf? target = some b → s.functionOf? r = s.functionOf? b) :
    (relocate r (.ofValue target)).Ends s
      (fun _ t => s.SameNaming t ∧ t.siteOf? r = s.siteOf? r) fun _ _ => False :=
  relocate_ends_of hlists (fun _ => ⟨.of_naming rfl, rfl⟩) fun b hb =>
    replace_sameNaming hs hlists hr (fun f name => hregistered r f name) hproper hne hb (hsame b hb)

/-! ## Migration -/

theorem intact_wrapperForMigration (r : ValueId) (source target : Slot) :
    (wrapperForMigration r source target).Only Intact := by
  refine (only_ask _).bind fun text => (Intact.record _).bind fun _ => ?_
  exact Intact.wrapperOfValue target

/-- The wrapper for a migration is made unless there is nothing to write into the journal, and the
program stays as it is. -/
theorem wrapperForMigration_ends (hs : s.Sound) (htarget : s.Has (.value target)) (r : ValueId)
    (source : Slot) : (wrapperForMigration r source (.ofValue target)).Ends s
      (fun w t => s.Intact t ∧ s.Interns t ∧ t.wrapperFor? target = some w)
      fun f t => s.migrationText r source (.ofValue target) = .error f ∧ t = s := by
  have hanswers : (wrapperForMigration r source (.ofValue target)).Ends s (fun _ _ => True)
      fun f t => s.migrationText r source (.ofValue target) = .error f ∧ t = s := by
    unfold wrapperForMigration
    cases htext : s.migrationText r source (.ofValue target) with
    | error f =>
      unfold Ends
      rw [run_bind, run_ask, htext]
      exact ⟨rfl, rfl⟩
    | ok text =>
      refine ends_run_bind (by rw [run_ask, htext]) (ends_run_bind rfl ?_)
      have hinterns := Interns.annotate hs s.labelTypes (s.journal ++ [⟨.records, .debug, text⟩])
      exact (answers_wrapperOfValue (hinterns.sound hs) (hinterns.more.has htarget)).ends.sure
  have hkeeps := (keeps_wrapperForMigration hs r source (.ofValue target)).ends
  refine ((hanswers.also hkeeps).also ((intact_wrapperForMigration r source _).ends s)).mono
    (fun w t ⟨⟨_, hinterns, v, hv, hw⟩, hintact⟩ => ⟨hintact, hinterns, ?_⟩) fun _ _ hf => hf
  obtain rfl : target = v := by simpa using hv
  exact hw

theorem Store.WrapsOlder.of_edits {d : Discipline} (h : s.WrapsOlder) (hs : s.Sound)
    (hst : Edits d s t) : t.WrapsOlder :=
  (hst.induction (fun hs hwraps he => hwraps.kept_by_edit hs he) hs h).2

/-- Where objects stay, values with their names and nodes as they are, no name goes. -/
theorem Store.isSome_nameOf?_of {ref : Ref} (hst : s.Extends t)
    (hvalue : ∀ v, s.Has (.value v) → t.nameOf? (.value v) = s.nameOf? (.value v))
    (hnode : ∀ {n : NodeId} {o : Node}, s.get? n = some o → t.get? n = some o)
    (href : (s.nameOf? ref).isSome = true) : (t.nameOf? ref).isSome = true := by
  cases ref with
  | value v =>
    obtain ⟨name, hname⟩ := Option.isSome_iff_exists.mp href
    obtain ⟨o, ho, _⟩ := Option.bind_eq_some_iff.mp hname
    rwa [hvalue v (has_value_iff.mpr ⟨o, ho⟩)]
  | node n =>
    obtain ⟨name, hname⟩ := Option.isSome_iff_exists.mp href
    obtain ⟨o, ho, hname⟩ := Option.bind_eq_some_iff.mp hname
    have hname' : (t.get? n).bind Node.name? = some name := by rwa [hnode ho]
    exact Option.isSome_of_mem hname'
  | function f =>
    exact Option.isSome_map.trans (hst.kept f (Option.isSome_map.symm.trans href))
  | module m =>
    exact Option.isSome_map.trans (hst.kept m (Option.isSome_map.symm.trans href))
  | _ => cases href

/-- A record that says what it said describes a variable with a name still, if no name has gone. -/
theorem Store.isOk_describedName_of
    (hcarries : ∀ a : Value, s.get? r = some a → ∃ b : Value, t.get? r = some b ∧ a.Carries b)
    (hnames : ∀ ref, (s.nameOf? ref).isSome = true → (t.nameOf? ref).isSome = true)
    (hname : (s.describedName r).isOk = true) : (t.describedName r).isOk = true := by
  obtain ⟨binding, hbinding, hvar⟩ := isOk_bind.mp hname
  obtain ⟨o, ho, hbinding⟩ := Option.bind_eq_some_iff.mp (found_eq_ok.mp hbinding)
  obtain ⟨p, hp, hcarried⟩ := hcarries o ho
  refine isOk_bind.mpr ⟨binding, found_eq_ok.mpr ?_, ?_⟩
  · rw [hp, Option.bind_some, Value.binding?, hcarried.opcode]
    exact hbinding
  · obtain ⟨name, hvar⟩ := isOk_iff.mp hvar
    obtain ⟨ref, href, hname⟩ := Option.bind_eq_some_iff.mp (found_eq_ok.mp hvar)
    obtain ⟨name', hname'⟩ := Option.isSome_iff_exists.mp (hnames ref (Option.isSome_of_mem hname))
    refine isOk_iff.mpr ⟨name', found_eq_ok.mpr ?_⟩
    rw [href]
    exact hname'

/-- What is written about the migration of a record whose variable has a name. -/
theorem isOk_migrationText (hs : s.Closed) (hwraps : s.WrapsOlder) {source : ValueId}
    (hname : (s.describedName r).isOk = true) (hsource : s.Has (.value source))
    (htarget : s.Has (.value target)) :
    (s.migrationText r (.ofValue source) (.ofValue target)).isOk = true := by
  have htext : ∀ {v : ValueId}, s.Has (.value v) → ∃ text, s.slotText (.ofValue v) = .ok text :=
    fun hv => isOk_iff.mp (isOk_slotText hs hwraps ⟨_, rfl, hv⟩)
  obtain ⟨name, hname⟩ := isOk_iff.mp hname
  obtain ⟨old, hold⟩ := htext hsource
  obtain ⟨new, hnew⟩ := htext htarget
  unfold migrationText
  rw [hname, hold, hnew]
  rfl

/-- A record that a value knows among its users can be rebound, and nothing moves. -/
theorem rebind_ends (hs : s.Sound) (hrecord : s.isRecord r = true) (hagree : s.Agrees r)
    {held w : ValueId} (hheld : r ∈ s.usesOf held) (hw : s.Has (.value w)) :
    (setOperand r 0 (.ofValue w)).Ends s (fun _ t => Reuses r (fun _ => True) s t ∧ s.Unmoved t)
      fun _ _ => False := by
  have hplace : position? (s.operandsOf r).length 0 = some 0 := by
    have hpos := List.length_pos_of_mem ((hagree.mem_iff held).mp hheld)
    simp [position?, hpos]
  have huser : s.IsUser r := by
    obtain ⟨o, ho, hdebug⟩ := isRecord_iff.mp hrecord
    exact ⟨o, ho, Value.isUser_of_isDebugValue hdebug⟩
  obtain ⟨t, hrun, _⟩ := setOperand_agrees huser hs.once hagree hplace hw
  have hreuses := (keeps_setOperand (has_of_isRecord hrecord) hs.closed 0 (hasIn_some.mpr hw)
    (fun _ _ => trivial) trivial).change
  have hstill : s.Unmoved ((setOperand r 0 (.ofValue w)).run s).2 :=
    still_setOperand r 0 (.ofValue w) s
  unfold Ends
  rw [hrun] at hreuses hstill ⊢
  exact ⟨hreuses, hstill⟩

/-- A record has been given a wrapper to hold: nothing has moved, and all other users hold what they
held. -/
structure Store.Rebound (r : ValueId) (s t : Store) : Prop where
  sound : t.Sound
  record : s.isRecord r = true
  isRecord : t.isRecord r = true
  unmoved : s.Unmoved t
  stays : ∀ {v : ValueId} {a : Value}, s.get? v = some a →
    ∃ b : Value, t.get? v = some b ∧ a.Stays b
  operandsOf : ∀ u, u ≠ r → t.operandsOf u = s.operandsOf u

/-- A migration faults only before it has changed the program, namely where the variable of the
record that the finder yields has no name. Otherwise that record, if there is one, is given the
wrapper of the target, and what is left is to move it. -/
theorem migrate_ends_of (hs : s.Sound) (hwraps : s.WrapsOlder)
    (hagrees : ∀ r, s.isRecord r = true → s.Agrees r) {source : ValueId}
    (hsource : s.Has (.value source)) (htarget : s.Has (.value target))
    {moves : ValueId → Store → Prop}
    (hmoves : ∀ r u p, (findRecord (.ofValue source)).run s = (.ok (some r), u) → s.Rebound r p →
      (relocate r (.ofValue target)).Ends p (fun _ t => moves r t) fun _ _ => False) :
    (migrate (.ofValue source) (.ofValue target)).Ends s
      (fun _ t => ∀ r u, (findRecord (.ofValue source)).run s = (.ok (some r), u) → moves r t)
      fun _ t => s.Intact t ∧ ∃ r u, (findRecord (.ofValue source)).run s = (.ok (some r), u) ∧
        (s.describedName r).isOk = false := by
  obtain ⟨o, u, hfind⟩ := answers_findRecord hs hsource
  obtain ⟨hinterns, ho⟩ := (keeps_findRecord hs (.ofValue source)).ok hfind
  have hsu : s.Interns u := hinterns
  have hintact : s.Intact u := by
    have h := Intact.fixes.findRecord (.ofValue source) s
    rwa [hfind] at h
  rw [migrate_eq]
  refine ends_run_bind hfind ?_
  cases o with
  | none => exact ends_pure fun r u' h => nomatch hfind.symm.trans h
  | some r =>
    obtain ⟨v, _, hfound⟩ := Option.bind_eq_some_iff.mp ho.symm
    obtain ⟨held, _, hfound⟩ := Option.bind_eq_some_iff.mp hfound
    obtain ⟨huses, hrecord⟩ := mem_of_recordOfWrapper? hfound
    have hu := hsu.sound hs
    refine Ends.bind ((wrapperForMigration_ends hu (hsu.more.has htarget) r _).mono
      (fun _ _ h => h) ?_) fun w q ⟨huq, huq', hw⟩ => ?_
    · -- only what is told of the migration can fault, before anything changes
      rintro f _ ⟨htext, rfl⟩
      refine ⟨hintact, r, _, hfind, Bool.eq_false_iff.mpr fun hname => ?_⟩
      have hok := isOk_migrationText hu.closed (hwraps.of_edits hs (hsu.edited {}).edits)
        ((hintact.describedName hs.closed r).symm ▸ hname) (hsu.more.has hsource)
        (hsu.more.has htarget)
      rw [htext] at hok
      cases hok
    · have hsq := hintact.trans huq
      have hq := huq'.sound hu
      have hrecord' : s.isRecord r = true := (hintact.isRecord r).symm.trans hrecord
      have hagree := (hsu.trans huq').toKeepsUses.agrees (hagrees r hrecord')
      obtain ⟨n, hwrapped, _⟩ := hq.interned.of_wrapperFor? hw
      refine (rebind_ends hq ((hsq.isRecord r).trans hrecord') hagree (huq.usesOf held ▸ huses)
        (has_of_wrappedAt hwrapped)).sure.bind fun _ p ⟨hqp, hstill⟩ => ?_
      refine (hmoves r u p hfind ?_).mono (fun _ t ht r' u' hfind' => ?_) fun _ _ hf => hf.elim
      · refine ⟨hq.of_reuses hqp, hrecord',
          (hqp.isRecord r).trans ((hsq.isRecord r).trans hrecord'), hsq.unmoved.trans hstill,
          fun ha => ?_, fun v hv => ?_⟩
        · -- neither a new context nor another operand changes what a value says
          obtain ⟨c, hc⟩ := hsq.value ha
          obtain ⟨b, hb, hstays⟩ := hqp.stays hc
          exact ⟨b, hb, ⟨⟨hstays.type, hstays.opcode, hstays.loc⟩, hstays.name, hstays.function,
            hstays.block⟩⟩
        · rw [hqp.operandsOf v hv, hsq.operandsOf]
      · obtain rfl : r = r' := by
          rw [hfind] at hfind'
          cases hfind'
          rfl
        exact ht

/-- A migration that does not fault before it has changed the program moves the record that the
finder yields, if there is one, behind the target. -/
theorem migrate_ends (hs : s.Sound) (hwraps : s.WrapsOlder) (hlists : s.ListsAgree)
    (hregistered : s.Registered) (hproper : s.Proper)
    (hagrees : ∀ r, s.isRecord r = true → s.Agrees r) {source : ValueId}
    (hsource : s.Has (.value source)) (htarget : s.Has (.value target))
    (hne : ∀ r u, (findRecord (.ofValue source)).run s = (.ok (some r), u) → target ≠ r) :
    (migrate (.ofValue source) (.ofValue target)).Ends s
      (fun _ t => ∀ r u, (findRecord (.ofValue source)).run s = (.ok (some r), u) →
        s.Relocated r target t)
      fun _ t => s.Intact t ∧ ∃ r u, (findRecord (.ofValue source)).run s = (.ok (some r), u) ∧
        (s.describedName r).isOk = false := by
  refine migrate_ends_of hs hwraps hagrees hsource htarget fun r u p hfind hp => ?_
  refine (relocate_relocates hp.sound (hlists.of_unmoved hp.unmoved)
    (hregistered.of_unmoved hp.unmoved) (hproper.of_registry hp.unmoved.registry)
    (formOf?_of_isRecord hp.isRecord) (hne r u hfind)).mono (fun _ t ht => ?_) fun _ _ hf => hf
  refine ht.of_unmoved hp.unmoved (has_of_isRecord hp.record) fun a ha => ?_
  obtain ⟨b, hb, hstays⟩ := hp.stays ha
  exact ⟨b, hb, hstays.toCarries⟩

end SsaDebugInfo
