import SsaDebugInfo.Proofs.Records.Relocation

/-!
# Erasing instructions

An instruction that is erased is taken out of its block, which releases its name, and gives up its
operands; only then is it seen whether something uses it. Where lists and links, users and operands
agree and names are registered, the first two steps go well, so that erasing succeeds if and only if
no other user is among the uses of the instruction. Then nothing leads to it any more.

- `Store.vacated`: what functions know of names once an instruction has left its block.
- `removeFromParent_vacates`, `dropReferences_frees`: the two steps.
- `Store.Erased`: what is left of an erased instruction, and what becomes of all else.
- `erase_ends`: when erasing succeeds.
-/

namespace SsaDebugInfo

open Act Store

variable {s t u : Store} {x : ValueId} {f : FunctionId} {name : String}

namespace Store

/-- The naming once an instruction has left its block: if it stood in one, its function has released
its name. -/
def vacated (s : Store) (x : ValueId) : Naming :=
  match s.blockOf? x, s.seat? x with
  | some _, some (f, name) => s.naming.leave x f name
  | _, _ => s.naming

/-- An instruction that has no function, or stands in no block, leaves no name behind. -/
theorem vacated_of_loose (h : s.blockOf? x = none ∨ s.functionOf? x = none) :
    s.vacated x = s.naming := by
  unfold vacated
  split
  · next hb hseat =>
    rw [hb, functionOf?_of_seat? hseat] at h
    simp at h
  · rfl

/-- A value that has a seat in a function and a block gives up the seat. -/
theorem vacated_of_seat (hb : s.blockOf? x ≠ none) (hseat : s.seat? x = some (f, name)) :
    s.vacated x = s.naming.leave x f name := by
  obtain ⟨b, hb⟩ := Option.ne_none_iff_exists'.mp hb
  rw [vacated, hb, hseat]

/-- An instruction that has left its block is in no function; one that stood in none stays. -/
theorem seat_vacated : (s.vacated x).seat x = if s.blockOf? x = none then s.seat? x else none := by
  split
  · next hb =>
    rw [vacated_of_loose (.inl hb)]
    rfl
  · next hb =>
    cases hseat : s.seat? x with
    | none =>
      have hf : s.functionOf? x = none := by rw [functionOf?_eq_seat?, hseat]; rfl
      rw [vacated_of_loose (.inr hf)]
      exact hseat
    | some seat =>
      rw [vacated_of_seat hb hseat]
      exact if_pos rfl

/-- Functions register the names that they had registered, but for that of an instruction that has
left its block. -/
theorem mem_names_vacated (hproper : s.Proper) :
    name ∈ ((s.vacated x).registry f).names ↔ name ∈ (s.registry f).names ∧
      ¬ (s.blockOf? x ≠ none ∧ s.seat? x = some (f, name)) := by
  by_cases hb : s.blockOf? x = none
  · rw [vacated_of_loose (.inl hb)]
    simp [hb, Store.naming]
  cases hseat : s.seat? x with
  | none =>
    have hf : s.functionOf? x = none := by rw [functionOf?_eq_seat?, hseat]; rfl
    rw [vacated_of_loose (.inr hf)]
    simp [Store.naming]
  | some seat =>
    obtain ⟨g, left⟩ := seat
    rw [vacated_of_seat hb hseat, Naming.mem_names_leave (hproper g).once]
    simp [hb, Store.naming]

/-- An erased instruction has no operands and stands in no block, and nothing leads to it. All else
holds and is held as before, and stands where it stood; functions have released no name but that of
the instruction, if it stood in a block. -/
structure Erased (s : Store) (x : ValueId) (t : Store) : Prop where
  noOperands : t.operandsOf x = []
  noBlock : t.blockOf? x = none
  /-- An instruction that stood in no block stays in the function that it was in, if any. -/
  function : t.functionOf? x = if s.blockOf? x = none then s.functionOf? x else none
  inNoList : ∀ b, .ofValue x ∉ t.instructionsOf b
  amongNoUses : ∀ v, x ∉ t.usesOf v
  amongNoOperands : ∀ u, .ofValue x ∉ t.operandsOf u
  mem_names : ∀ f name, name ∈ (t.registry f).names ↔ name ∈ (s.registry f).names ∧
    ¬ (s.blockOf? x ≠ none ∧ s.seat? x = some (f, name))
  operandsOf : ∀ u, u ≠ x → t.operandsOf u = s.operandsOf u
  blockOf? : ∀ u, u ≠ x → t.blockOf? u = s.blockOf? u
  functionOf? : ∀ u, u ≠ x → t.functionOf? u = s.functionOf? u
  instructionsOf : ∀ b, t.instructionsOf b = (s.instructionsOf b).erase (.ofValue x)
  mem_usesOf : ∀ u v, u ∈ t.usesOf v ↔ u ∈ s.usesOf v ∧ u ≠ x

end Store

/-! ## The steps -/

/-- An instruction that leaves its block leaves the function that it is in as well. -/
theorem removeFromParent_vacates (hs : s.Sound) (hlists : s.ListsAgree)
    (hregistered : s.Registered) (hx : s.formOf? x = some .instruction) :
    (removeFromParent x).Ends s (fun _ t => t.Sound ∧ s.KeepsUses t ∧ s.Withdraws x t ∧
      t.naming = s.vacated x) fun _ _ => False := by
  have hmoves := (keeps_placing_removeFromParent (d := {}) (r := x) hs).ends
  have hleaves : (removeFromParent x).Ends s (fun _ t => t.naming = s.vacated x)
      fun _ _ => False := by
    by_cases hloose : s.blockOf? x = none ∨ s.functionOf? x = none
    · rw [vacated_of_loose hloose]
      exact (removeFromParent_keepsNames hlists hx hloose).mono (fun _ _ ht => ht.1)
        fun _ _ hf => hf
    · obtain ⟨hb, hf⟩ := not_or.mp hloose
      obtain ⟨f, hf⟩ := Option.ne_none_iff_exists'.mp hf
      obtain ⟨name, hseat, _⟩ := exists_seat? hf
      rw [vacated_of_seat hb hseat]
      exact (removeFromParent_releases hlists hb (siteOf?_of_seat? hseat)
        (hregistered x f name hseat)).mono (fun _ _ ht => ht.1) fun _ _ hf => hf
  refine ((hleaves.and (removeFromParent_spec hs hlists hx (hregistered x))).and hmoves).mono
    (fun _ t ⟨⟨hnaming, ht, hwithdraws, _⟩, hmoves, _⟩ => ?_) fun _ _ hf => hf.1.1
  exact ⟨ht, (Moves.toAside hmoves.2).toKeepsUses, hwithdraws, hnaming⟩

/-- An instruction that is in step gives up its operands, and nothing moves. -/
theorem dropReferences_frees (hs : s.Sound) (hx : s.formOf? x = some .instruction)
    (hagrees : s.Agrees x) :
    (dropReferences x).Ends s (fun _ t => s.Unmoved t ∧ t.operandsOf x = [] ∧
      (∀ u, u ≠ x → t.operandsOf u = s.operandsOf u) ∧
      ∀ u v, u ∈ t.usesOf v ↔ u ∈ s.usesOf v ∧ u ≠ x) fun _ _ => False := by
  obtain ⟨o, i, ho, hi⟩ := formOf?_eq_instruction.mp hx
  have hnothing : ∀ {P : Slot → Prop}, ∀ slot ∈ ([] : List Slot), P slot := fun _ h => nomatch h
  obtain ⟨t, hrun, hnone, hagrees'⟩ := setOperands_agrees hs.once
    ⟨o, ho, Value.isUser_of_instruction? hi⟩ hagrees hnothing
  have hkeeps : (setOperands x []).Keeps (.reuses x fun _ => True) s fun _ _ => True :=
    keeps_setOperands (has_of_formOf? hx) hnothing (fun _ _ => trivial) hnothing
  have hreuses := hkeeps.change
  have hstill : s.Unmoved ((setOperands x []).run s).2 := still_setOperands x [] s
  unfold Ends
  rw [dropReferences]
  rw [hrun] at hreuses hstill ⊢
  refine ⟨hstill, hnone, hreuses.operandsOf, fun u v => ?_⟩
  by_cases hu : u = x
  · subst hu
    rw [hagrees'.mem_iff, hnone]
    simp
  · rw [hreuses.mem_usesOf u hu]
    simp [hu]

/-! ## Erasing -/

/-- What has left its block and given up its operands, and is used by nothing else, is erased. -/
theorem Store.Withdraws.erased (hlists : s.ListsAgree) (huses : s.UseDef)
    (hproper : s.Proper) (hleft : s.Withdraws x t) (hkeeps : s.KeepsUses t)
    (hnaming : t.naming = s.vacated x) (hstill : t.Unmoved u) (hnone : u.operandsOf x = [])
    (hoperands : ∀ v, v ≠ x → u.operandsOf v = t.operandsOf v)
    (hmem : ∀ v w, v ∈ u.usesOf w ↔ v ∈ t.usesOf w ∧ v ≠ x)
    (hunused : ∀ v ∈ s.usesOf x, v = x) : s.Erased x u where
  noOperands := hnone
  noBlock := by
    rw [hstill.blockOf?, hleft.blockOf?, if_pos rfl]
  function := by
    have hseat : t.seat? x = (s.vacated x).seat x := congrArg (·.seat x) hnaming
    rw [hstill.functionOf?, functionOf?_eq_seat?, hseat, seat_vacated, functionOf?_eq_seat?]
    split
    · rfl
    · rfl
  inNoList b := by
    rw [hstill.instructionsOf, hleft.instructionsOf, (hlists.once b).mem_erase_iff]
    simp
  amongNoUses v := by
    rw [hmem]
    simp
  amongNoOperands v hv := by
    by_cases hvx : v = x
    · subst hvx
      rw [hnone] at hv
      cases hv
    · rw [hoperands v hvx, hkeeps.operandsOf, ← (huses v).mem_iff] at hv
      exact hvx (hunused v hv)
  mem_names f name := by
    rw [hstill.registry]
    show name ∈ (t.naming.registry f).names ↔ _
    rw [hnaming, mem_names_vacated hproper]
  operandsOf v hv := by
    rw [hoperands v hv, hkeeps.operandsOf]
  blockOf? v hv := by
    rw [hstill.blockOf?, hleft.blockOf?, if_neg hv]
  functionOf? v hv := by
    rw [hstill.functionOf?, hleft.functionOf? v hv]
  instructionsOf b := by
    rw [hstill.instructionsOf, hleft.instructionsOf]
  mem_usesOf v w := by
    rw [hmem, hkeeps.usesOf]

/-- Erasing an instruction succeeds if and only if nothing but itself uses it. -/
theorem erase_ends (hs : s.Sound) (hlists : s.ListsAgree) (huses : s.UseDef) (hproper : s.Proper)
    (hregistered : s.Registered) (hx : s.formOf? x = some .instruction) :
    (erase x).Ends s (fun _ t => (∀ u ∈ s.usesOf x, u = x) ∧ s.Erased x t)
      fun f _ => f = .unmetRequirement ∧ ∃ u ∈ s.usesOf x, u ≠ x := by
  refine Ends.bind (removeFromParent_vacates hs hlists hregistered hx).sure
    fun _ t ⟨ht, hkeeps, hleft, hnaming⟩ => ?_
  refine Ends.bind (dropReferences_frees ht (hleft.form hx) (hkeeps.agrees (huses x))).sure
    fun _ u ⟨hstill, hnone, hoperands, hmem⟩ => ?_
  refine ends_get_bind ?_
  have hleftover : u.usesOf x = [] ↔ ∀ v ∈ s.usesOf x, v = x := by
    rw [List.eq_nil_iff_forall_not_mem]
    refine forall_congr' fun v => ?_
    rw [hmem, hkeeps.usesOf, not_and, not_not]
  cases hused : (u.usesOf x).isEmpty with
  | true =>
    have hunused := hleftover.mp (List.isEmpty_iff.mp hused)
    exact ends_pure ⟨hunused, hleft.erased hlists huses hproper hkeeps hnaming hstill hnone
      hoperands hmem hunused⟩
  | false =>
    refine ends_throw ⟨rfl, ?_⟩
    have hother : ¬ ∀ v ∈ s.usesOf x, v = x := fun h => by
      rw [hleftover.mpr h] at hused
      cases hused
    simpa using hother

end SsaDebugInfo
