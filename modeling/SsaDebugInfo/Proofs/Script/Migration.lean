import SsaDebugInfo.Proofs.Records.Calls
import SsaDebugInfo.Proofs.Script.Finding

/-!
# Migration moves one record

Migration rebinds the record that the finder yields, and no other: every other record tracks what it
tracked. So a value with several records is still tracked after it has been migrated from.

- `migrate_spec`: what migration does to what records track.
- `migrate_moves_one`: the same between different values, and when migration leaves no record
  behind.
- `Reachable.migrate_moves_found`: the same in reachable sessions.
-/

namespace SsaDebugInfo

open Act Store

variable {d : Discipline} {s t : Store} {source target v : ValueId}

/-- Rebinding a record that tracks something to a value, in a store that is prepared for it. -/
theorem rebind_spec (hs : s.Sound) (hrecorded : s.Recorded) {r w : ValueId}
    (hr : s.tracks r source = true) (hw : s.wrapperFor? target = some w)
    (hrun : (setOperand r 0 (.ofValue w)).run s = (.ok (), t)) :
    Reuses r (fun _ => True) s t ∧ t.operandsOf r = [.ofValue w] := by
  obtain ⟨hrecord, w₀, rest, n, hoperands, _⟩ := tracks_iff.mp hr
  obtain ⟨o, ho, hdebug⟩ := isRecord_iff.mp hrecord
  obtain ⟨n', hwrapped, _⟩ := hs.interned.of_wrapperFor? hw
  have hwhas : s.Has (.value w) := has_of_wrappedAt hwrapped
  have hchange : Reuses r (fun _ => True) s _ := (keeps_setOperand (has_of_isRecord hrecord)
    hs.closed 0 (hasIn_some.mpr hwhas) (fun _ _ => trivial) trivial).change
  rw [hrun] at hchange
  -- a record holds a single operand, so that exchanging the first leaves no other
  have hnil : rest = [] := by
    rcases (hrecorded r hrecord).2 with hnone | ⟨w', hw', _⟩
    · rw [hnone] at hoperands
      cases hoperands
    · rw [hw'] at hoperands
      exact (List.cons.inj hoperands).2.symm
  have hplace : position? (s.operandsOf r).length 0 = some 0 := by
    rw [hoperands, hnil]
    rfl
  obtain ⟨t', hrun', hset, _⟩ := setOperand_agrees ⟨o, ho, Value.isUser_of_isDebugValue hdebug⟩
    hs.once (hrecorded r hrecord).1 hplace hwhas
  rw [hrun] at hrun'
  cases hrun'
  refine ⟨hchange, hset.trans ?_⟩
  rw [hoperands, hnil]
  rfl

/-- A record that holds the wrapper of a value, and nothing else, tracks that value and no other. -/
theorem tracks_of_rebound (hs : s.Interned) {r w : ValueId} (hw : s.wrapperFor? target = some w)
    (hmore : s.MoreTables t) (hrecord : t.isRecord r = true)
    (hoperands : t.operandsOf r = [.ofValue w]) :
    t.tracks r target = true ∧ ∀ v, t.tracks r v = true → v = target := by
  obtain ⟨n, hwrapped, hhandle⟩ := hs.of_wrapperFor? hw
  obtain ⟨c, _, hcontext, _⟩ := hs.wrapperFor?_eq_some.mp hw
  obtain ⟨o, ho, _⟩ := Option.bind_eq_some_iff.mp hcontext
  have htarget : s.Has (.value target) := has_value_iff.mpr ⟨o, ho⟩
  refine ⟨tracks_iff.mpr ⟨hrecord, w, [], n, hoperands, hmore.wrappedAt hwrapped,
    hmore.handleAt hhandle, hmore.has htarget⟩, fun v hv => ?_⟩
  obtain ⟨_, w', _, n', hoperands', hwrapped', hhandle', _⟩ := tracks_iff.mp hv
  rw [hoperands] at hoperands'
  cases hoperands'
  rw [hmore.wrappedAt hwrapped] at hwrapped'
  cases hwrapped'
  rw [hmore.handleAt hhandle] at hhandle'
  exact Option.some_inj.mp hhandle'.symm

/-- What migration does, once it succeeds, to what records track: the record that the finder yields
for the source tracks the target and nothing else, and every other record tracks what it tracked. -/
theorem migrate_spec (hs : s.Sound) (hrecorded : s.Recorded) (hsource : s.Has (.value source))
    (hrun : (migrate (.ofValue source) (.ofValue target)).run s = (.ok (), t)) :
    ∃ o u, (findRecord (.ofValue source)).run s = (.ok o, u) ∧
      (∀ r, o = some r → t.tracks r target = true ∧ ∀ v, t.tracks r v = true → v = target) ∧
      ∀ r v, o ≠ some r → s.Has (.value v) → t.tracks r v = s.tracks r v := by
  rw [migrate_eq] at hrun
  obtain ⟨o, u, hfind, hrest⟩ := run_bind_ok hrun
  obtain ⟨hsu, _⟩ := (keeps_findRecord hs (.ofValue source)).ok hfind
  have hu : u.Sound := Interns.sound hsu hs
  refine ⟨o, u, hfind, ?_⟩
  cases o with
  | none =>
    obtain ⟨_, rfl⟩ := Prod.mk.inj hrest
    exact ⟨(fun _ h => nomatch h), fun r v _ hv =>
      hrecorded.tracks_eq hsu.more hsu.isRecord (hsu.operandsOf r) hv⟩
  | some r =>
    obtain ⟨w, q, hwrapper, hrest⟩ := run_bind_ok hrest
    obtain ⟨_, p, hset, hrelocate⟩ := run_bind_ok hrest
    obtain ⟨huq, v', htarget, hw⟩ := (keeps_wrapperForMigration hu r _ _).ok hwrapper
    obtain rfl : target = v' := by simpa using htarget
    -- `u` after finding, `q` with the wrapper, `p` rebound, `t` relocated
    have hsq : s.Interns q := Interns.trans hsu huq
    have hq : q.Sound := hsq.sound hs
    obtain ⟨o', u', hfind', _, htracked, _⟩ := findRecord_spec hs hrecorded hsource
    rw [hfind] at hfind'
    cases hfind'
    have htracksq : q.tracks r source = true :=
      (hrecorded.tracks_eq hsq.more hsq.isRecord (hsq.operandsOf r) hsource).trans (htracked r rfl)
    obtain ⟨hqp, hoperands⟩ :=
      rebind_spec hq (hrecorded.of_keepsUses hs hsq.toKeepsUses hsq.more) htracksq hw hset
    have hp : p.Sound := hq.of_reuses hqp
    have hrecordp : p.isRecord r = true := (hqp.isRecord r).trans (tracks_iff.mp htracksq).1
    have hpt : p.Moves (· == .ofValue r) t :=
      ((keeps_relocate (d := {}) hp (has_of_isRecord hrecordp) (.ofValue target)).ok hrelocate).1.2
    have hqt : q.MoreTables t := hqp.toSameTables.more.trans hpt.toAside.toSameTables.more
    refine ⟨?_, fun r' v hne hv => ?_⟩
    · rintro _ ⟨⟩
      exact tracks_of_rebound hq.interned hw hqt
        ((hpt.isRecord (has_of_isRecord hrecordp)).trans hrecordp)
        ((hpt.toAside.operandsOf r).trans hoperands)
    · -- no step touches what another record holds
      have hne : r' ≠ r := fun h => hne (congrArg some h.symm)
      refine hrecorded.tracks_eq (hsq.more.trans hqt) (fun hr' => ?_) ?_ hv
      · rw [hpt.isRecord (hqp.has (hsq.more.has hr')), hqp.isRecord, hsq.isRecord hr']
      · rw [hpt.toAside.operandsOf, hqp.operandsOf r' hne, hsq.operandsOf]

/-- Between different values a migration that succeeds takes the record that the finder yields for
the source, if it yields one, to the target, and every other record tracks what it tracked. So the
source is left without records exactly if it had no more than one. -/
theorem migrate_moves_one (hs : s.Sound) (hrecorded : s.Recorded) (hsource : s.Has (.value source))
    (hne : target ≠ source)
    (hrun : (migrate (.ofValue source) (.ofValue target)).run s = (.ok (), t)) :
    (∃ o u, (findRecord (.ofValue source)).run s = (.ok o, u) ∧
      (o.isSome = true ↔ ∃ r, s.tracks r source = true) ∧
      (∀ r, o = some r → s.tracks r source = true ∧ t.tracks r target = true ∧
        t.tracks r source = false) ∧
      ∀ r v, o ≠ some r → s.Has (.value v) → t.tracks r v = s.tracks r v) ∧
    ((∀ r, t.tracks r source = false) ↔
      ∀ r r', s.tracks r source = true → s.tracks r' source = true → r = r') := by
  obtain ⟨o, u, hfind, hmoved, hrest⟩ := migrate_spec hs hrecorded hsource hrun
  obtain ⟨o', u', hfind', hsome, htracked, _⟩ := findRecord_spec hs hrecorded hsource
  rw [hfind] at hfind'
  cases hfind'
  have hleft : ∀ r, o = some r → t.tracks r source = false := by
    intro r hr
    refine Bool.eq_false_iff.mpr fun htracks => ?_
    exact hne ((hmoved r hr).2 source htracks).symm
  refine ⟨⟨o, u, hfind, hsome, fun r hr => ⟨htracked r hr, (hmoved r hr).1, hleft r hr⟩, hrest⟩,
    fun hnone r r' hr hr' => ?_, fun hone r => ?_⟩
  · -- a record that tracked the source and no longer does is the one found
    have hfound : ∀ {r}, s.tracks r source = true → o = some r := by
      intro r hr
      by_contra hother
      rw [← hrest r source hother hsource, hnone r] at hr
      cases hr
    exact Option.some_inj.mp ((hfound hr).symm.trans (hfound hr'))
  · by_cases hr : o = some r
    · exact hleft r hr
    · rw [hrest r source hr hsource]
      refine Bool.eq_false_iff.mpr fun htracks => hr ?_
      obtain ⟨r', rfl⟩ := Option.isSome_iff_exists.mp (hsome.mpr ⟨r, htracks⟩)
      exact congrArg some (hone r' r (htracked r' rfl) htracks)

namespace Script.Session

variable {session : Session}

/-- While the debug operations alone make records and change their operands, a migration that
succeeds takes the record that the finder yields for the source, if it yields one, to the target,
and every other record tracks what it tracked. So the source is left without records exactly if it
had no more than one. -/
theorem Reachable.migrate_moves_found (hd : d.records = true) (h : Reachable d session)
    (hsource : session.store.Has (.value source)) (hne : target ≠ source)
    (hrun : (migrate (.ofValue source) (.ofValue target)).run session.store = (.ok (), t)) :
    (∃ o u, (findRecord (.ofValue source)).run session.store = (.ok o, u) ∧
      (o.isSome = true ↔ ∃ r, session.store.tracks r source = true) ∧
      (∀ r, o = some r → session.store.tracks r source = true ∧ t.tracks r target = true ∧
        t.tracks r source = false) ∧
      ∀ r v, o ≠ some r → session.store.Has (.value v) →
        t.tracks r v = session.store.tracks r v) ∧
    ((∀ r, t.tracks r source = false) ↔
      ∀ r r', session.store.tracks r source = true → session.store.tracks r' source = true →
        r = r') :=
  migrate_moves_one h.sound.store (h.recorded hd) hsource hne hrun

/-- Where the source has no record, there is nothing to take to the target. -/
example : ((migrate (.ofValue ⟨0⟩) (.ofValue ⟨1⟩)).run (runAll [] {}
    [.run (.make (.argument "a" (.int 32))) (some "a") none,
     .run (.make (.argument "b" (.int 32))) (some "b") none]).1.store).1 = .ok () := by
  decide +kernel

/-- Two arguments, the first of them bound to a variable twice. -/
def boundTwice : List Command :=
  [.run (.make (.argument "a" (.int 32))) (some "a") none,
   .run (.make (.argument "b" (.int 32))) (some "b") none,
   .run (.metadata (.localVariable "x" none none 1 0)) (some "x") none,
   .run (.make (.bind (some "a") (some "x") none none 0 .detached)) (some "first") none,
   .run (.make (.bind (some "a") (some "x") none none 0 .detached)) (some "second") none]

/-- Argument `a`, value 0, has two records, and `b`, value 1, is none of them. Migrating from `a` to
`b` succeeds, and still a record tracks `a`. -/
theorem migrate_leaves_record :
    Reachable { records := true } (runAll [] {} boundTwice).1 ∧
      (runAll [] {} boundTwice).1.store.Has (.value ⟨0⟩) ∧
      (runAll [] {} boundTwice).1.store.Has (.value ⟨1⟩) ∧
      (runAll [] {} boundTwice).1.store.tracks ⟨1⟩ ⟨0⟩ = false ∧
      ((migrate (.ofValue ⟨0⟩) (.ofValue ⟨1⟩)).run (runAll [] {} boundTwice).1.store).1 = .ok () ∧
      ∃ r, ((migrate (.ofValue ⟨0⟩) (.ofValue ⟨1⟩)).run
        (runAll [] {} boundTwice).1.store).2.tracks r ⟨0⟩ = true :=
  ⟨reachable_runAll .new (by decide +kernel), by decide +kernel, by decide +kernel,
    by decide +kernel, by decide +kernel, ⟨4⟩, by decide +kernel⟩

/-- One of the two records of `a` tracks `b` after the migration, and not all of them leave `a`. -/
theorem migrate_moves_found_boundTwice :
    Reachable { records := true } (runAll [] {} boundTwice).1 ∧
      ((migrate (.ofValue ⟨0⟩) (.ofValue ⟨1⟩)).run (runAll [] {} boundTwice).1.store).1 = .ok () ∧
      (∃ r, (runAll [] {} boundTwice).1.store.tracks r ⟨0⟩ = true ∧
        ((migrate (.ofValue ⟨0⟩) (.ofValue ⟨1⟩)).run
          (runAll [] {} boundTwice).1.store).2.tracks r ⟨1⟩ = true) ∧
      ¬ ∀ r, ((migrate (.ofValue ⟨0⟩) (.ofValue ⟨1⟩)).run
        (runAll [] {} boundTwice).1.store).2.tracks r ⟨0⟩ = false := by
  have h : Reachable { records := true } (runAll [] {} boundTwice).1 :=
    reachable_runAll .new (by decide +kernel)
  have hok : ((migrate (.ofValue ⟨0⟩) (.ofValue ⟨1⟩)).run
      (runAll [] {} boundTwice).1.store).1 = .ok () := by decide +kernel
  have htracks : ∀ r ∈ [3, 4], (runAll [] {} boundTwice).1.store.tracks ⟨r⟩ ⟨0⟩ = true := by
    decide +kernel
  obtain ⟨⟨o, _, _, hsome, hmoved, _⟩, hleft⟩ :=
    Reachable.migrate_moves_found rfl h (by decide +kernel) (by decide) (run_eq_ok hok)
  obtain ⟨r, rfl⟩ := Option.isSome_iff_exists.mp (hsome.mpr ⟨⟨3⟩, htracks 3 (by decide)⟩)
  refine ⟨h, hok, ⟨r, (hmoved r rfl).1, (hmoved r rfl).2.1⟩, fun hnone => ?_⟩
  cases hleft.mp hnone ⟨3⟩ ⟨4⟩ (htracks 3 (by decide)) (htracks 4 (by decide))

end Script.Session

end SsaDebugInfo
