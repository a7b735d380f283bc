import SsaDebugInfo.Proofs.Ir.UseDef

/-!
# What debug records hold on to

While debug records are made, and their operands changed, by the debug operations alone, a record
either has lost its operand or holds a single tied wrapper, and stands among the uses of just that
wrapper.

- `Recorded.kept_by_edit`: every admissible edit keeps this.
- `Recorded.collect`: collection keeps this.
-/

namespace SsaDebugInfo

open Act Store

variable {d : Discipline} {s t : Store}

namespace Store

/-- A record without operands, or with a single operand which is a tied wrapper. -/
def HoldsTied (s : Store) (r : ValueId) : Prop :=
  s.operandsOf r = [] ∨ ∃ w, s.operandsOf r = [.ofValue w] ∧ s.Tied w

theorem HoldsTied.of_more (hs : s.Interned) {r : ValueId} (hr : s.HoldsTied r)
    (h : s.MoreTables t) (hoperands : t.operandsOf r = s.operandsOf r) : t.HoldsTied r := by
  rcases hr with hnone | ⟨w, hw, htied⟩
  · exact .inl (hoperands.trans hnone)
  · exact .inr ⟨w, hoperands.trans hw, htied.of_more hs h⟩

/-- Every debug record is in step with its operands, and holds a tied wrapper if it holds
anything. -/
def Recorded (s : Store) : Prop :=
  ∀ r, s.isRecord r = true → s.Agrees r ∧ s.HoldsTied r

namespace Recorded

theorem of_keepsUses (hs : s.Sound) (h : s.Recorded) (huses : s.KeepsUses t)
    (hmore : s.MoreTables t) : t.Recorded := by
  intro r hr
  by_cases hhas : s.Has (.value r)
  · rw [huses.isRecord hhas] at hr
    obtain ⟨hagrees, htied⟩ := h r hr
    exact ⟨huses.agrees hagrees, htied.of_more hs.interned hmore (huses.operandsOf r)⟩
  · -- a new record holds nothing yet
    refine ⟨huses.agrees (agrees_of_not_has hs.closed hhas), .inl ?_⟩
    rw [huses.operandsOf, operandsOf_of_not_has hhas]

theorem of_aside (hs : s.Sound) (h : s.Recorded) (haside : s.Aside t) : t.Recorded :=
  h.of_keepsUses hs haside.toKeepsUses haside.toSameTables.more

/-- If the operands of one user change, only that user is to be looked at, if it is a record. -/
theorem of_reuses (hs : s.Sound) (h : s.Recorded) {user : ValueId} {touched : Slot → Prop}
    (hreuses : Reuses user touched s t)
    (huser : s.isRecord user = true → t.Agrees user ∧ t.HoldsTied user) : t.Recorded := by
  intro r hr
  rw [hreuses.isRecord] at hr
  by_cases hne : r = user
  · subst hne
    exact huser hr
  · obtain ⟨hagrees, htied⟩ := h r hr
    exact ⟨hreuses.agrees hne hagrees,
      htied.of_more hs.interned hreuses.toSameTables.more (hreuses.operandsOf r hne)⟩

/-- Exchanging all operands of a user for what fits: a record then holds just that. -/
theorem setOperands (hd : d.records = true) (hs : s.Sound) (h : s.Recorded) {user : ValueId}
    (huser : s.IsUser user) {operands : List Slot} (hfits : d.Fits s (s.isRecord user) operands) :
    (Act.run (setOperands user operands) s).2.Recorded := by
  have hchange : Reuses user (fun _ => True) s
      (Act.run (SsaDebugInfo.setOperands user operands) s).2 := hfits.reuses_setOperands huser
  refine h.of_reuses hs hchange fun hrecord => ?_
  have hvalues : ∀ o ∈ operands, ∃ v, o = Slot.ofValue v ∧ s.Has (.value v) := by
    intro o ho
    rcases hfits.tied hd hrecord with rfl | ⟨w, rfl, _⟩
    · cases ho
    · obtain rfl := List.mem_singleton.mp ho
      exact ⟨w, rfl, hasIn_some.mp (hfits.held _ ho)⟩
  obtain ⟨t, hrun, hoperands, hagrees⟩ :=
    setOperands_agrees hs.once huser (h user hrecord).1 hvalues
  rw [hrun] at hchange ⊢
  refine ⟨hagrees, ?_⟩
  rcases hfits.tied hd hrecord with rfl | ⟨w, rfl, htied⟩
  · exact .inl hoperands
  · exact .inr ⟨w, hoperands, htied.of_more hs.interned hchange.toSameTables.more⟩

/-- Exchanging one operand of a user for what fits: a record then holds just that, since it held no
more than one. -/
theorem setOperand (hd : d.records = true) (hs : s.Sound) (h : s.Recorded) {user : ValueId}
    (huser : s.IsUser user) (index : Int) {operand : Slot}
    (hfits : d.Fits s (s.isRecord user) [operand]) :
    (Act.run (setOperand user index operand) s).2.Recorded := by
  have hheld := List.forall_mem_singleton.mp hfits.held
  have hchange : Reuses user (fun _ => True) s
      (Act.run (SsaDebugInfo.setOperand user index operand) s).2 :=
    hfits.reuses_setOperand hs.closed huser index
  refine h.of_reuses hs hchange fun hrecord => ?_
  obtain ⟨w, hoperand, htied⟩ := (hfits.tied hd hrecord).resolve_left (List.cons_ne_nil _ _)
  obtain rfl : operand = .ofValue w := List.singleton_inj.mp hoperand
  obtain ⟨hagrees, hholds⟩ := h user hrecord
  cases hplace : position? (s.operandsOf user).length index with
  | none =>
    obtain ⟨f, hrun, _⟩ := run_setOperand_of_none hplace
    rw [hrun]
    exact ⟨hagrees, hholds⟩
  | some place =>
    obtain ⟨t, hrun, hoperands, hagrees'⟩ :=
      setOperand_agrees huser hs.once hagrees hplace (hasIn_some.mp hheld)
    rw [hrun] at hchange ⊢
    refine ⟨hagrees', .inr ⟨w, ?_, htied.of_more hs.interned hchange.toSameTables.more⟩⟩
    have hlt := position?_eq_some hplace
    rcases hholds with hnone | ⟨old, hold, _⟩
    · rw [hnone] at hlt
      cases hlt
    · -- it held a single operand, so that the place is the first
      rw [hold] at hlt hoperands
      obtain rfl : place = 0 := Nat.lt_one_iff.mp hlt
      exact hoperands

/-- Every admissible edit keeps what debug records hold on to. -/
theorem kept_by_edit (hd : d.records = true) {e : Edit} (hs : s.Sound) (h : s.Recorded)
    (he : e.Admissible d s) : (e.act.run s).2.Recorded := by
  cases e with
  | annotate labelTypes journal => exact h.of_aside hs (aside_annotate labelTypes journal)
  | create kind object => exact h.of_aside hs (aside_create he.1 he.2)
  | revise kind id f => exact h.of_aside hs (aside_revise he)
  | place placement => exact h.of_aside hs (placement.aside_act hs.closed he)
  | setOperands user operands => exact h.setOperands hd hs he.1 he.2.1
  | setOperand user index operand => exact h.setOperand hd hs he.1 index he.2.1
  | pushOperand user operand =>
    -- what takes one more operand is no record
    obtain ⟨huser, hfits, hrecord⟩ := he
    refine h.of_reuses hs (hfits.reuses_pushOperand hs.closed huser) fun hrecord' => ?_
    rw [hrecord] at hrecord'
    cases hrecord'
  | addHandle context value handle =>
    exact h.of_keepsUses hs keepsUses_addHandle (moreTables_addHandle he.2.1)
  | addWrapper context node =>
    exact h.of_keepsUses hs keepsUses_addWrapper (moreTables_addWrapper he.1)

/-- Collection keeps what debug records hold on to: a live record keeps its wrapper alive. -/
theorem collect (hs : s.Sound) (h : s.Recorded) (roots : List Slot) :
    (s.collect roots).Recorded := by
  intro r hr
  rw [isRecord_collect] at hr
  split at hr
  · next hlive =>
    obtain ⟨hagrees, hheld⟩ := h r hr
    refine ⟨hagrees.collect hs.closed, ?_⟩
    unfold HoldsTied
    rw [operandsOf_collect, if_pos hlive]
    rcases hheld with hnone | ⟨w, hw, htied⟩
    · exact .inl hnone
    · have hwlive : s.Live roots (.value w) :=
        live_of_mem_operandsOf hlive (by rw [hw]; exact List.mem_cons_self)
      exact .inr ⟨w, hw, htied.collect hwlive⟩
  · cases hr

end Recorded

end Store

theorem recorded_initial : Store.initial.Recorded := by
  intro r hr
  have hhas := has_of_isRecord hr
  rw [Has, get?_initial r (by decide)] at hhas
  cases hhas

end SsaDebugInfo
