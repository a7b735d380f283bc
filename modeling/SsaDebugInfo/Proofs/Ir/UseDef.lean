import SsaDebugInfo.Proofs.Edit

/-!
# Users and operands agree

While all operands handed over are values, every user stands among the uses of exactly the values
that are its operands, and no edit misses a user that it wants to remove.

- `UseDef.kept_by_edit`: every admissible edit keeps users and operands in step, and none faults for
  a missing use.
- `UseDef.collect`: collection keeps users and operands in step.
-/

namespace SsaDebugInfo

open Act Store

variable {d : Discipline} {s t : Store}

/-- Every user stands among the uses of exactly the values that are its operands. -/
def Store.UseDef (s : Store) : Prop :=
  ∀ u, s.Agrees u

/-- An operand at a position that the user does not have is a fault, and changes nothing. -/
theorem run_setOperand_of_none {user : ValueId} {index : Int} {operand : Slot}
    (h : position? (s.operandsOf user).length index = none) :
    ∃ f, (setOperand user index operand).run s = (.error f, s) ∧ f.isBookkeeping = false := by
  cases ho : s.get? user with
  | none =>
    rw [setOperand, run_bind, run_fetch, ho]
    exact ⟨.noSuchMember, rfl, rfl⟩
  | some o =>
    rw [operandsOf_eq ho] at h
    rw [setOperand, run_fetch_bind ho]
    dsimp only
    rw [h]
    exact ⟨.noSuchPosition, rfl, rfl⟩

/-- The operands that a discipline of values lets in are values which are there. -/
theorem Discipline.Fits.values {record : Bool} {operands : List Slot}
    (h : d.Fits s record operands) (hd : d.values = true) :
    ∀ o ∈ operands, ∃ v, o = Slot.ofValue v ∧ s.Has (.value v) := by
  intro o ho
  obtain ⟨v, rfl⟩ := h.value hd o ho
  exact ⟨v, rfl, hasIn_some.mp (h.held _ ho)⟩

namespace Store.UseDef

/-- Where uses and operands stay, they stay in step. -/
theorem of_keepsUses (hs : s.UseDef) (h : s.KeepsUses t) : t.UseDef :=
  fun u => h.agrees (hs u)

/-- If the operands of one user change and it stays in step, all users stay in step. -/
theorem of_reuses (hs : s.UseDef) {user : ValueId} {touched : Slot → Prop}
    (h : Reuses user touched s t) (huser : t.Agrees user) :
    t.UseDef := by
  intro u
  by_cases hu : u = user
  · exact hu ▸ huser
  · exact h.agrees hu (hs u)

/-- Every admissible edit keeps users and operands in step, and none misses a user. -/
theorem kept_by_edit (hd : d.values = true) {e : Edit} (hs : s.Sound) (h : s.UseDef)
    (he : e.Admissible d s) :
    (e.act.run s).2.UseDef ∧ (e.act.run s).1 ≠ .error .notAmongUses := by
  -- an edit of the operands of one user succeeds and leaves the user in step
  have hreuses : ∀ {user : ValueId} {act : Act Unit},
      Reuses user (fun _ => True) s (act.run s).2 →
      (∃ t, act.run s = (.ok (), t) ∧ t.Agrees user) →
        (act.run s).2.UseDef ∧ (act.run s).1 ≠ .error .notAmongUses := by
    rintro user act hchange ⟨t, hrun, huser⟩
    rw [hrun] at hchange ⊢
    exact ⟨h.of_reuses hchange huser, fun hfault => nomatch hfault⟩
  cases e with
  | annotate labelTypes journal =>
    exact ⟨h.of_keepsUses (aside_annotate labelTypes journal).toKeepsUses, fun hf => nomatch hf⟩
  | create kind object =>
    exact ⟨h.of_keepsUses (aside_create he.1 he.2).toKeepsUses, fun hf => nomatch hf⟩
  | revise kind id f =>
    exact ⟨h.of_keepsUses (aside_revise he).toKeepsUses, fun hf => nomatch hf⟩
  | place placement =>
    have hplace := placement.keeps_act hs.closed he
    have hmoves : s.Moves _ (placement.act.run s).2 := hplace.change
    exact ⟨h.of_keepsUses hmoves.toKeepsUses, fun hf => hplace.fault hf rfl⟩
  | setOperands user operands =>
    obtain ⟨huser, hfits, _⟩ := he
    refine hreuses (hfits.reuses_setOperands huser) ?_
    obtain ⟨t, hrun, _, hagrees⟩ :=
      setOperands_agrees hs.once huser (h user) (hfits.values hd)
    exact ⟨t, hrun, hagrees⟩
  | setOperand user index operand =>
    obtain ⟨huser, hfits, _⟩ := he
    obtain ⟨v, rfl, hv⟩ := List.forall_mem_singleton.mp (hfits.values hd)
    cases hplace : position? (s.operandsOf user).length index with
    | none =>
      -- no such place: nothing changes, and the fault is one about the place
      obtain ⟨f, hrun, hplain⟩ := run_setOperand_of_none hplace
      show (Act.run (SsaDebugInfo.setOperand user index _) s).2.UseDef ∧ _
      rw [Edit.act, hrun]
      refine ⟨h, ?_⟩
      rintro ⟨⟩
      cases hplain
    | some place =>
      refine hreuses (hfits.reuses_setOperand hs.closed huser index) ?_
      obtain ⟨t, hrun, _, hagrees⟩ := setOperand_agrees huser hs.once (h user) hplace hv
      exact ⟨t, hrun, hagrees⟩
  | pushOperand user operand =>
    obtain ⟨huser, hfits, _⟩ := he
    obtain ⟨v, rfl, hv⟩ := List.forall_mem_singleton.mp (hfits.values hd)
    refine hreuses (hfits.reuses_pushOperand hs.closed huser) ?_
    obtain ⟨t, hrun, _, hagrees⟩ := pushOperand_agrees huser (h user) hv
    exact ⟨t, hrun, hagrees⟩
  | addHandle context value handle =>
    exact ⟨h.of_keepsUses keepsUses_addHandle, fun hf => nomatch hf⟩
  | addWrapper context node =>
    exact ⟨h.of_keepsUses keepsUses_addWrapper, fun hf => nomatch hf⟩

/-- Collection keeps users and operands in step: a user that stays keeps what it uses. -/
theorem collect (hs : s.Sound) (h : s.UseDef) (roots : List Slot) : (s.collect roots).UseDef :=
  fun u => (h u).collect hs.closed

end Store.UseDef

theorem useDef_initial : Store.initial.UseDef := by
  intro u
  refine agrees_of_not_has closed_initial fun hu => ?_
  rw [Has, get?_initial u (by decide)] at hu
  cases hu

end SsaDebugInfo
