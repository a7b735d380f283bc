import SsaDebugInfo.Proofs.Handles
import SsaDebugInfo.Proofs.Records.Recorded

/-!
# What debug records track

A record tracks a value through a wrapper and a handle. Among records made by the debug operations,
those that track a value are exactly the records among the users of the wrapper that the value is
looked up with, so that the finder finds one of them if there are any.

- `Store.tracks_iff`: what tracking means for operands, wrappers and handles.
- `Recorded.mayFind_iff`: what may be found for a value are the records that track it.
- `Recorded.tracks_eq`, `tracks_collect`, `Edit.keepsHeld`, `Edits.tracks`: when a record keeps
  tracking a value.
-/

namespace SsaDebugInfo

open Act Store

variable {d : Discipline} {s t : Store} {roots : List Slot} {r v w : ValueId}

namespace Store

/-! ## What a record tracks -/

theorem handled?_eq_some {n : NodeId} :
    s.handled? n = some v ↔ s.handleAt n = some v ∧ s.Has (.value v) := by
  -- a handle whose value has gone leads nowhere
  have hhandled : s.handled? n = (s.handleAt n).bind fun v =>
      if (s.get? v).isSome then some v else none := by
    unfold handled? handleAt
    cases s.get? n <;> rfl
  rw [hhandled, Option.bind_eq_some_iff]
  constructor
  · rintro ⟨v', hv', h⟩
    split at h
    · next hhas =>
      cases h
      exact ⟨hv', hhas⟩
    · cases h
  · rintro ⟨hn, hv⟩
    exact ⟨v, hn, if_pos hv⟩

/-- An operand leads to a value through a wrapper and a handle, if the value is there. -/
theorem unwrap_eq_some {operand : Slot} :
    s.unwrap operand = .ok (some v) ↔
      ∃ w n, operand = .ofValue w ∧ s.wrappedAt w = some n ∧ s.handleAt n = some v ∧
        s.Has (.value v) := by
  unfold unwrap
  rw [bind_eq_ok]
  constructor
  · rintro ⟨⟨w, o⟩, hin, h⟩
    obtain ⟨rfl, ho⟩ := valueIn?_eq_some.mp (found_eq_ok.mp hin)
    obtain ⟨n, hn, h⟩ := bind_eq_ok.mp h
    obtain ⟨v', hv', h⟩ := bind_eq_ok.mp h
    obtain ⟨hhandle, hv⟩ := handled?_eq_some.mp (Except.ok.inj h)
    exact ⟨w, n, rfl, (wrappedAt_eq ho).trans (found_eq_ok.mp hn), hhandle, hv⟩
  · rintro ⟨w, n, rfl, hw, hn, hv⟩
    obtain ⟨o, ho, hwrapped⟩ := Option.bind_eq_some_iff.mp hw
    refine ⟨(w, o), found_eq_ok.mpr (valueIn?_eq_some.mpr ⟨rfl, ho⟩), ?_⟩
    refine bind_eq_ok.mpr ⟨n, found_eq_ok.mpr hwrapped, ?_⟩
    refine bind_eq_ok.mpr ⟨v, found_eq_ok.mpr hn, ?_⟩
    exact congrArg Except.ok (handled?_eq_some.mpr ⟨hn, hv⟩)

/-- A record tracks a value if its first operand wraps a handle of the value, and the value is
there. -/
theorem tracks_iff :
    s.tracks r v = true ↔ s.isRecord r = true ∧ ∃ w rest n, s.operandsOf r = .ofValue w :: rest ∧
      s.wrappedAt w = some n ∧ s.handleAt n = some v ∧ s.Has (.value v) := by
  unfold tracks
  split
  · next hr =>
    have hrecord : s.isRecord r = false := by rw [isRecord, hr]; rfl
    simp [hrecord]
  · next o ho =>
    rw [isRecord_eq ho, operandsOf_eq ho, Bool.and_eq_true]
    refine and_congr_right fun _ => ?_
    split
    · next hnil => simp [hnil]
    · next operand rest hcons =>
      have hunwrap : s.unwrap operand = .ok (some v) ↔ ∃ w rest n,
          o.operands = .ofValue w :: rest ∧ s.wrappedAt w = some n ∧ s.handleAt n = some v ∧
            s.Has (.value v) := by
        rw [unwrap_eq_some, hcons]
        constructor
        · rintro ⟨w, n, rfl, h⟩
          exact ⟨w, rest, n, rfl, h⟩
        · rintro ⟨w, rest', n, hlist, h⟩
          obtain ⟨rfl, rfl⟩ := List.cons.inj hlist
          exact ⟨w, n, rfl, h⟩
      rw [← hunwrap]
      cases s.unwrap operand with
      | ok tracked => simp
      | error fault => simp

theorem has_of_tracks (h : s.tracks r v = true) : s.Has (.value v) := by
  obtain ⟨_, _, _, _, _, _, _, hv⟩ := tracks_iff.mp h
  exact hv

/-- A record tracks one value. -/
theorem tracks_unique (h : s.tracks r v = true) (h' : s.tracks r w = true) : v = w := by
  obtain ⟨_, x, _, n, hx, hn, hv, _⟩ := tracks_iff.mp h
  obtain ⟨_, x', _, n', hx', hn', hw, _⟩ := tracks_iff.mp h'
  rw [hx] at hx'
  cases hx'
  rw [hn] at hn'
  cases hn'
  exact Option.some_inj.mp (hv.symm.trans hw)

/-- The record tracks the value, and no other record does. -/
def SoleRecord (s : Store) (r v : ValueId) : Prop :=
  ∀ r', s.tracks r' v = true ↔ r' = r

theorem soleRecord_iff : s.SoleRecord r v ↔ s.tracks r v = true ∧
    ∀ i < s.values.size, s.tracks ⟨i⟩ v = true → ⟨i⟩ = r := by
  constructor
  · exact fun h => ⟨(h r).mpr rfl, fun i _ hi => (h ⟨i⟩).mp hi⟩
  · rintro ⟨hr, hothers⟩ r'
    constructor
    · intro hr'
      obtain ⟨o, ho, _⟩ := isRecord_iff.mp (tracks_iff.mp hr').1
      exact hothers r'.index (index_lt_of_get? ho) hr'
    · rintro rfl
      exact hr

instance : Decidable (s.SoleRecord r v) :=
  decidable_of_iff _ soleRecord_iff.symm

/-- No record tracks the value. -/
def Untracked (s : Store) (v : ValueId) : Prop :=
  ∀ r, s.tracks r v = false

theorem untracked_iff : s.Untracked v ↔ ∀ i < s.values.size, s.tracks ⟨i⟩ v = false := by
  refine ⟨fun h i _ => h ⟨i⟩, fun h r => ?_⟩
  refine Bool.eq_false_iff.mpr fun hr => ?_
  obtain ⟨o, ho, _⟩ := isRecord_iff.mp (tracks_iff.mp hr).1
  cases (h r.index (index_lt_of_get? ho)).symm.trans hr

instance : Decidable (s.Untracked v) :=
  decidable_of_iff _ untracked_iff.symm

/-- Among records made by the debug operations, one that tracks a value holds the wrapper that the
value is looked up with, and nothing else. -/
theorem Recorded.tracks_iff (hs : s.Interned) (h : s.Recorded) (hv : s.Has (.value v)) :
    s.tracks r v = true ↔
      s.isRecord r = true ∧ ∃ w, s.wrapperFor? v = some w ∧ s.operandsOf r = [.ofValue w] := by
  rw [Store.tracks_iff]
  refine and_congr_right fun hr => ?_
  constructor
  · -- the wrapper it holds is tied, so that it is the one found for the value of its handle
    rintro ⟨w, rest, n, hoperands, hw, hn, _⟩
    rcases (h r hr).2 with hnone | ⟨w', hw', htied⟩
    · rw [hnone] at hoperands
      cases hoperands
    · rw [hw'] at hoperands
      cases hoperands
      exact ⟨w, hs.wrapperFor?_of_tied htied hw hn hv, hw'⟩
  · rintro ⟨w, hw, hoperands⟩
    obtain ⟨n, hwrapped, hhandle⟩ := hs.of_wrapperFor? hw
    exact ⟨w, [], n, hoperands, hwrapped, hhandle, hv⟩

/-- The record is among those that the finder may yield for a value, in whatever order it goes
through the users of the value's wrapper. -/
def MayFind (s : Store) (v r : ValueId) : Prop :=
  ∃ w, s.wrapperFor? v = some w ∧ r ∈ s.usesOf w ∧ s.isRecord r = true

/-- What may be found for a value are the records that track it. -/
theorem Recorded.mayFind_iff (hs : s.Interned) (h : s.Recorded) (hv : s.Has (.value v)) :
    s.MayFind v r ↔ s.tracks r v = true := by
  rw [h.tracks_iff hs hv]
  constructor
  · rintro ⟨w, hw, huse, hr⟩
    have hmem := ((h r hr).1.mem_iff w).mp huse
    rcases (h r hr).2 with hnone | ⟨w', hw', _⟩
    · rw [hnone] at hmem
      cases hmem
    · rw [hw'] at hmem ⊢
      exact ⟨hr, w, hw, congrArg (fun o => [o]) (List.mem_singleton.mp hmem).symm⟩
  · rintro ⟨hr, w, hw, hoperands⟩
    refine ⟨w, hw, ((h r hr).1.mem_iff w).mpr ?_, hr⟩
    rw [hoperands]
    exact List.mem_singleton_self _

theorem recordOfWrapper?_eq_none (h : s.recordOfWrapper? w = none) :
    ∀ r ∈ s.usesOf w, s.isRecord r = false := by
  intro r hr
  exact Bool.eq_false_iff.mpr (List.find?_eq_none.mp h r hr)

/-- What is found for a value is one of the records that track it, if there are any. -/
theorem Recorded.recordFor (hs : s.Interned) (h : s.Recorded) (hv : s.Has (.value v))
    {o : Option ValueId} (ho : o = (s.wrapperFor? v).bind s.recordOfWrapper?) :
    (o.isSome = true ↔ ∃ r, s.tracks r v = true) ∧ ∀ r, o = some r → s.tracks r v = true := by
  have hfound : ∀ r, o = some r → s.tracks r v = true := by
    rintro r rfl
    obtain ⟨w, hw, hr⟩ := Option.bind_eq_some_iff.mp ho.symm
    obtain ⟨huse, hrecord⟩ := mem_of_recordOfWrapper? hr
    exact (h.mayFind_iff hs hv).mp ⟨w, hw, huse, hrecord⟩
  refine ⟨⟨fun hsome => ?_, ?_⟩, hfound⟩
  · obtain ⟨r, hr⟩ := Option.isSome_iff_exists.mp hsome
    exact ⟨r, hfound r hr⟩
  · rintro ⟨r, hr⟩
    obtain ⟨w, hw, huse, hrecord⟩ := (h.mayFind_iff hs hv).mpr hr
    rw [ho, hw, Option.bind_some]
    -- some user of the wrapper is a record, so that the search among them finds one
    cases hnone : s.recordOfWrapper? w with
    | some r' => rfl
    | none =>
      rw [recordOfWrapper?_eq_none hnone r huse] at hrecord
      cases hrecord

/-! ## When a record keeps tracking a value -/

/-- A record made by the debug operations tracks the same values as long as it keeps its operands
and no handle, wrapper or entry goes. -/
theorem Recorded.tracks_eq (h : s.Recorded) (hmore : s.MoreTables t)
    (hrecord : s.Has (.value r) → t.isRecord r = s.isRecord r)
    (hoperands : t.operandsOf r = s.operandsOf r) (hv : s.Has (.value v)) :
    t.tracks r v = s.tracks r v := by
  rw [Bool.eq_iff_iff, Store.tracks_iff, Store.tracks_iff, hoperands]
  by_cases hr : s.Has (.value r)
  · rw [hrecord hr]
    refine and_congr_right fun hdebug => ?_
    rcases (h r hdebug).2 with hnone | ⟨w, hw, n, v', hwrapped, hhandle, _⟩
    · rw [hnone]
      exact ⟨fun ⟨_, _, _, hcons, _⟩ => (nomatch hcons), fun ⟨_, _, _, hcons, _⟩ => nomatch hcons⟩
    · rw [hw]
      constructor
      · rintro ⟨_, _, n', hcons, hw', hn', _⟩
        cases hcons
        rw [hmore.wrappedAt hwrapped] at hw'
        cases hw'
        rw [hmore.handleAt hhandle] at hn'
        cases hn'
        exact ⟨w, [], n, rfl, hwrapped, hhandle, hv⟩
      · rintro ⟨_, _, n', hcons, hw', hn', _⟩
        cases hcons
        exact ⟨w, [], n', rfl, hmore.wrappedAt hw', hmore.handleAt hn', hmore.has hv⟩
  · rw [operandsOf_of_not_has hr]
    exact ⟨fun ⟨_, _, _, _, hcons, _⟩ => (nomatch hcons),
      fun ⟨_, _, _, _, hcons, _⟩ => nomatch hcons⟩

/-- A record tracks the same values as long as it keeps its operands and no handle, wrapper or entry
goes. -/
theorem MoreTables.tracks (hmore : s.MoreTables t) (hs : s.Sound)
    (hrecord : s.Has (.value r) → t.isRecord r = s.isRecord r)
    (hoperands : t.operandsOf r = s.operandsOf r) (v : ValueId) :
    t.tracks r v = s.tracks r v := by
  refine Bool.eq_iff_iff.mpr ?_
  rw [tracks_iff, tracks_iff, hoperands]
  constructor
  · rintro ⟨hdebug, w, rest, n, hheld, hn, hv, hhas⟩
    have hmem : .ofValue w ∈ s.operandsOf r := by
      rw [hheld]
      exact List.mem_cons_self
    rw [hrecord (has_of_mem_operandsOf hmem)] at hdebug
    -- what a record holds is there, and so is what that wraps
    rw [hmore.wrapped (hasIn_some.mp (hs.closed.hasIn_operand hmem))] at hn
    obtain ⟨o, ho, hwrapped⟩ := Option.bind_eq_some_iff.mp hn
    rw [hmore.handled (hasIn_some.mp ((hs.closed.holdsOnly ho).wrapped n hwrapped))] at hv
    exact ⟨hdebug, w, rest, n, hheld, hn, hv, hmore.has_value_of_lt hhas (hs.interned.given hv)⟩
  · rintro ⟨hdebug, w, rest, n, hheld, hn, hv, hhas⟩
    exact ⟨(hrecord (has_of_isRecord hdebug)).trans hdebug, w, rest, n, hheld,
      hmore.wrappedAt hn, hmore.handleAt hv, hmore.has hhas⟩

/-- Collection takes from a record that stays nothing that it tracks, if that stays too. -/
theorem tracks_collect (hr : s.Live roots (.value r)) (hv : s.Live roots (.value v))
    (h : s.tracks r v = true) : (s.collect roots).tracks r v = true := by
  obtain ⟨hrecord, w, rest, n, hoperands, hw, hn, hhas⟩ := tracks_iff.mp h
  -- a live record keeps its wrapper alive, and the wrapper its handle
  have hwlive : s.Live roots (.value w) :=
    live_of_mem_operandsOf hr (by rw [hoperands]; exact List.mem_cons_self)
  have hnlive : s.Live roots (.node n) := live_of_wrappedAt hwlive hw
  refine tracks_iff.mpr ⟨?_, w, rest, n, ?_, ?_, ?_, has_collect.mpr ⟨hv, hhas⟩⟩
  · rwa [isRecord_collect, if_pos hr]
  · rwa [operandsOf_collect, if_pos hr]
  · rwa [wrappedAt_collect, if_pos hwlive]
  · rwa [handleAt_collect, if_pos hnlive]

/-- What is tracked after a collection was tracked before it, by a record that is live. -/
theorem tracks_of_collect (h : (s.collect roots).tracks r v = true) :
    s.tracks r v = true ∧ s.Live roots (.value r) := by
  obtain ⟨hrecord, w, rest, n, hheld, hn, hv, hhas⟩ := tracks_iff.mp h
  rw [isRecord_collect] at hrecord
  rw [operandsOf_collect] at hheld
  rw [wrappedAt_collect] at hn
  rw [handleAt_collect] at hv
  split at hheld
  · next hlive =>
    rw [if_pos hlive] at hrecord
    have hn := (Option.ite_none_right_eq_some.mp hn).2
    have hv := (Option.ite_none_right_eq_some.mp hv).2
    exact ⟨tracks_iff.mpr ⟨hrecord, w, rest, n, hheld, hn, hv, (has_collect.mp hhas).2⟩, hlive⟩
  · cases hheld

/-- Records keep what they hold: no handle, wrapper or entry goes, and a record with operands stays
a record with these operands. -/
structure KeepsHeld (s t : Store) : Prop extends s.MoreTables t where
  isRecord : ∀ {r}, s.isRecord r = true → s.operandsOf r ≠ [] → t.isRecord r = true
  operandsOf : ∀ {r}, s.isRecord r = true → s.operandsOf r ≠ [] → t.operandsOf r = s.operandsOf r

theorem KeepsUses.keepsHeld (h : s.KeepsUses t) (hmore : s.MoreTables t) : s.KeepsHeld t :=
  { hmore with
    isRecord := fun hr _ => (h.isRecord (has_of_isRecord hr)).trans hr
    operandsOf := fun _ _ => h.operandsOf _ }

theorem Aside.keepsHeld (h : s.Aside t) : s.KeepsHeld t :=
  h.toKeepsUses.keepsHeld h.toSameTables.more

/-- Changing the operands of a user that is no record, or a record that holds nothing. -/
theorem Reuses.keepsHeld {user : ValueId} {fits : Slot → Prop} (h : Reuses user fits s t)
    (huser : s.isRecord user = true → s.operandsOf user = []) : s.KeepsHeld t := by
  have hne : ∀ {r}, s.isRecord r = true → s.operandsOf r ≠ [] → r ≠ user := by
    rintro r hr hheld rfl
    exact hheld (huser hr)
  exact { h.toSameTables.more with
    isRecord := fun hr _ => (h.isRecord _).trans hr
    operandsOf := fun hr hheld => h.operandsOf _ (hne hr hheld) }

theorem KeepsHeld.tracks (h : s.KeepsHeld t) (htracks : s.tracks r v = true) :
    t.tracks r v = true := by
  obtain ⟨hrecord, w, rest, n, hoperands, hw, hn, hv⟩ := tracks_iff.mp htracks
  have hheld : s.operandsOf r ≠ [] := by
    rw [hoperands]
    exact List.cons_ne_nil _ _
  refine tracks_iff.mpr ⟨h.isRecord hrecord hheld, w, rest, n, ?_, ?_, ?_, ?_⟩
  · exact (h.operandsOf hrecord hheld).trans hoperands
  · exact h.toMoreTables.wrappedAt hw
  · exact h.toMoreTables.handleAt hn
  · exact h.toMoreTables.has hv

end Store

/-- Where records keep what they hold, every admissible edit does keep it: the operands that it
changes belong to other users, or to records that hold nothing yet. -/
theorem Edit.keepsHeld (hd : d.steady = true) {e : Edit} (hs : s.Sound) (he : e.Admissible d s) :
    s.KeepsHeld (e.act.run s).2 := by
  cases e with
  | annotate labelTypes journal => exact (aside_annotate labelTypes journal).keepsHeld
  | create kind object => exact (aside_create he.1 he.2).keepsHeld
  | revise kind id f => exact (aside_revise he).keepsHeld
  | place placement => exact (placement.aside_act hs.closed he).keepsHeld
  | setOperands user operands =>
    obtain ⟨huser, hfits, hfrees⟩ := he
    exact (hfits.reuses_setOperands huser).keepsHeld (hfrees hd)
  | setOperand user index operand =>
    obtain ⟨huser, hfits, hfrees⟩ := he
    exact (hfits.reuses_setOperand hs.closed huser index).keepsHeld (hfrees hd)
  | pushOperand user operand =>
    -- what takes one more operand is no record
    obtain ⟨huser, hfits, hrecord⟩ := he
    refine (hfits.reuses_pushOperand hs.closed huser).keepsHeld fun hr => ?_
    rw [hrecord] at hr
    cases hr
  | addHandle context value handle =>
    exact keepsUses_addHandle.keepsHeld (moreTables_addHandle he.2.1)
  | addWrapper context node => exact keepsUses_addWrapper.keepsHeld (moreTables_addWrapper he.1)

/-- Where records keep what they hold, they keep tracking what they track. -/
theorem Edits.tracks (hd : d.steady = true) (hs : s.Sound) (h : Edits d s t)
    (htracks : s.tracks r v = true) : t.tracks r v = true :=
  (h.induction (P := fun u => u.tracks r v = true)
    (fun hu htracks he => (Edit.keepsHeld hd hu he).tracks htracks) hs htracks).2

end SsaDebugInfo
