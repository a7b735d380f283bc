import SsaDebugInfo.Proofs.Records.Tracking
import SsaDebugInfo.Proofs.Script.Invariants

/-!
# The finder finds what tracks a value

While the debug operations alone make records and change their operands, the finder answers for
every value that is there, and what it yields is a record that tracks the value, if there is one. No
operation hides a record, wherever it moves values and functions to: as long as a record keeps what
it holds, its value finds a record.

- `Reachable.findRecord_tracks`: what the finder yields in reachable sessions.
-/

namespace SsaDebugInfo

open Act Store

variable {d : Discipline} {s t : Store} {v : ValueId}

/-- In a sound store whose records hold tied wrappers the finder answers: with a record that tracks
the value, if there is one. Whichever of the records among the users of the value's wrapper it
yields, that record tracks the value. -/
theorem findRecord_spec (hs : s.Sound) (hrecorded : s.Recorded) (hv : s.Has (.value v)) :
    ∃ o t, (findRecord (.ofValue v)).run s = (.ok o, t) ∧
      (o.isSome = true ↔ ∃ r, s.tracks r v = true) ∧
      (∀ r, o = some r → s.tracks r v = true) ∧
      ∀ r, t.MayFind v r ↔ s.tracks r v = true := by
  obtain ⟨o, t, hrun⟩ := answers_findRecord hs hv
  obtain ⟨hst, ho⟩ := (keeps_findRecord hs (.ofValue v)).ok hrun
  have ht : t.Sound := Interns.sound hst hs
  have hrecorded' : t.Recorded := hrecorded.of_keepsUses hs hst.toKeepsUses hst.more
  have hv' : t.Has (.value v) := hst.more.has hv
  -- looking may fix contexts, but no record tracks anything else for it
  have hsame : ∀ r, t.tracks r v = s.tracks r v := fun r =>
    hrecorded.tracks_eq hst.more hst.isRecord (hst.operandsOf r) hv
  obtain ⟨hsome, hfound⟩ := hrecorded'.recordFor ht.interned hv' ho
  refine ⟨o, t, hrun, ?_, fun r hr => (hsame r).symm.trans (hfound r hr), fun r => ?_⟩
  · simpa only [hsame] using hsome
  · rw [← hsame]
    exact hrecorded'.mayFind_iff ht.interned hv'

/-- The finder yields the only record of a value. -/
theorem findRecord_sole (hs : s.Sound) (hrecorded : s.Recorded) {r : ValueId}
    (hsole : s.SoleRecord r v) : ∃ t, (findRecord (.ofValue v)).run s = (.ok (some r), t) := by
  have htracks : s.tracks r v = true := (hsole r).mpr rfl
  obtain ⟨o, t, hfind, hsome, hfound, _⟩ := findRecord_spec hs hrecorded (has_of_tracks htracks)
  obtain ⟨r', rfl⟩ := Option.isSome_iff_exists.mp (hsome.mpr ⟨r, htracks⟩)
  obtain rfl : r' = r := (hsole r').mp (hfound r' rfl)
  exact ⟨t, hfind⟩

/-- Records that track the same value hold the same wrapper, which wraps the only handle of the
value. -/
theorem Store.Recorded.shares (hs : s.Interned) (h : s.Recorded) {r r' : ValueId}
    (hr : s.tracks r v = true) (hr' : s.tracks r' v = true) :
    ∃ w n, s.operandsOf r = [.ofValue w] ∧ s.operandsOf r' = [.ofValue w] ∧
      s.wrappedAt w = some n ∧ s.handleAt n = some v ∧ ∀ n', s.handleAt n' = some v → n' = n := by
  have hv := has_of_tracks hr
  obtain ⟨_, w, hw, hoperands⟩ := (h.tracks_iff hs hv).mp hr
  obtain ⟨_, w', hw', hoperands'⟩ := (h.tracks_iff hs hv).mp hr'
  obtain rfl := Option.some_inj.mp (hw.symm.trans hw')
  obtain ⟨n, hwrapped, hhandle⟩ := hs.of_wrapperFor? hw
  refine ⟨w, n, hoperands, hoperands', hwrapped, hhandle, fun n' hhandle' => ?_⟩
  have hlookup : ∀ {m}, s.handleAt m = some v → s.handleFor? v = some m := fun hm =>
    hs.handleFor?_eq_some.mpr (hs.registered hm hv)
  exact Option.some_inj.mp ((hlookup hhandle').symm.trans (hlookup hhandle))

namespace Script.Session

variable {session : Session}

theorem permitted_of_steady {labels : Labels} {operation : Operation}
    (h : operation.permitted { d with steady := true } labels s = true) :
    operation.permitted d labels s = true := by
  unfold Operation.permitted at h ⊢
  rw [Bool.and_eq_true] at h ⊢
  refine ⟨h.1, ?_⟩
  rw [show Operation.freesRecord labels s operation = false by simpa using h.2]
  simp

/-- An operation that leaves records what they hold leaves them what they track, as long as both
the record and the value stay. -/
theorem tracks_step (h : session.Sound) {watch : List Label} {operation : Operation}
    {bindTo into : Given}
    (hpermitted : operation.permitted { d with steady := true } session.labels session.store = true)
    {r : ValueId} (htracks : session.store.tracks r v = true)
    (hr : (session.step watch (.run operation bindTo into)).1.store.Has (.value r))
    (hv : (session.step watch (.run operation bindTo into)).1.store.Has (.value v)) :
    (session.step watch (.run operation bindTo into)).1.store.tracks r v = true := by
  -- the operation leads by edits that free no record, and then what is not live goes
  have hled := led_runOperation h hpermitted bindTo into
  have hkept := hled.edited.edits.tracks rfl h.store htracks
  have hstep : (session.step watch (.run operation bindTo into)).1.store =
      (session.runOperation operation bindTo into).2.settledStore := by
    unfold step
    exact store_settleResult watch _
  rw [hstep] at hr hv ⊢
  exact tracks_collect (has_collect.mp hr).1 (has_collect.mp hv).1 hkept

/-- While the debug operations alone make records and change their operands, the finder answers for
every value of a reachable session: with a record exactly if some record tracks the value, and then
with one that does, whichever of the records among the users of the value's wrapper comes first. All
records of the value share one wrapper and its one handle. After every operation that leaves
records what they hold, such as one that moves the value or its function, a record that tracks the
value still does, and the finder still yields a record. -/
theorem Reachable.findRecord_tracks (hd : d.records = true) (h : Reachable d session)
    (hv : session.store.Has (.value v)) :
    (∃ o t, (findRecord (.ofValue v)).run session.store = (.ok o, t) ∧
      (o.isSome = true ↔ ∃ r, session.store.tracks r v = true) ∧
      (∀ r, o = some r → session.store.tracks r v = true) ∧
      ∀ r, t.MayFind v r ↔ session.store.tracks r v = true) ∧
    (∀ r r', session.store.tracks r v = true → session.store.tracks r' v = true →
      ∃ w n, session.store.operandsOf r = [.ofValue w] ∧
        session.store.operandsOf r' = [.ofValue w] ∧
        session.store.wrappedAt w = some n ∧ session.store.handleAt n = some v ∧
        ∀ n', session.store.handleAt n' = some v → n' = n) ∧
    ∀ (watch : List Label) (operation : Operation) (bindTo into : Given),
      operation.permitted { d with steady := true } session.labels session.store = true →
      ∀ r, session.store.tracks r v = true →
        (session.step watch (.run operation bindTo into)).1.store.Has (.value r) →
        (session.step watch (.run operation bindTo into)).1.store.Has (.value v) →
        (session.step watch (.run operation bindTo into)).1.store.tracks r v = true ∧
          ∃ found t, (findRecord (.ofValue v)).run
            (session.step watch (.run operation bindTo into)).1.store = (.ok (some found), t) := by
  have hrecorded := h.recorded hd
  refine ⟨findRecord_spec h.sound.store hrecorded hv,
    fun r r' hr hr' => hrecorded.shares h.sound.store.interned hr hr',
    fun watch operation bindTo into hpermitted r htracks hr' hv' => ?_⟩
  have htracks' := tracks_step h.sound hpermitted htracks hr' hv'
  have hnext : Reachable d (session.step watch (.run operation bindTo into)).1 :=
    reachable_step h _ (permitted_of_steady hpermitted)
  obtain ⟨o, t, hrun, hsome, _⟩ := findRecord_spec hnext.sound.store (hnext.recorded hd) hv'
  obtain ⟨found, rfl⟩ := Option.isSome_iff_exists.mp (hsome.mpr ⟨r, htracks'⟩)
  exact ⟨htracks', found, t, hrun⟩

/-- Two functions in modules with different contexts, and a record of a sum in the one, out of which
the sum is then taken. -/
def takenOut : List Command :=
  [.run (.metadata .context) (some "context") none,
   .run (.modules (.module "first" (some "context") .standard)) (some "first") none,
   .run (.modules (.module "second" none .standard)) (some "second") none,
   .run (.make (.argument "a" (.int 32))) (some "a") none,
   .run (.make (.function "f" (.int 32) [some "a"] none none)) (some "f") none,
   .run (.make (.function "g" (.int 32) [] none none)) (some "g") none,
   .run (.modules (.addFunction (some "first") (some "f"))) none none,
   .run (.modules (.addFunction (some "second") (some "g"))) none none,
   .run (.make (.block "entry" [])) (some "entry") (some "f"),
   .run (.make (.block "exit" [])) (some "exit") (some "g"),
   .run (.make (.instruction (.arith "add" (some "a") (some "a")) "sum" none)) (some "sum")
     (some "entry"),
   .run (.metadata (.localVariable "x" none none 1 0)) (some "x") none,
   .run (.metadata (.expression [])) (some "whole") none,
   .run (.make (.bind (some "sum") (some "x") (some "whole") none 0 (.beside none (some "sum"))))
     (some "record") none,
   .run (.change (.removeFromParent (some "sum"))) none none]

/-- The sum, value 3, has a record, value 5, and still finds one once it stands in the other
function. -/
theorem findRecord_tracks_takenOut :
    Reachable { records := true } (runAll [] {} takenOut).1 ∧
      (runAll [] {} takenOut).1.store.tracks ⟨5⟩ ⟨3⟩ = true ∧
      (∃ o t, (findRecord (.ofValue ⟨3⟩)).run (runAll [] {} takenOut).1.store = (.ok o, t) ∧
        o.isSome = true) ∧
      ∃ found t, (findRecord (.ofValue ⟨3⟩)).run ((runAll [] {} takenOut).1.step []
        (.run (.change (.append (some "exit") (some "sum"))) none none)).1.store =
          (.ok (some found), t) := by
  have hstart : admitsAll { records := true } [] {} takenOut = true ∧
      (runAll [] {} takenOut).1.store.tracks ⟨5⟩ ⟨3⟩ = true := by
    decide +kernel
  obtain ⟨hadmits, htracks⟩ := hstart
  have h : Reachable { records := true } (runAll [] {} takenOut).1 := reachable_runAll .new hadmits
  obtain ⟨⟨o, t, hrun, hsome, _⟩, _, hmoves⟩ :=
    Reachable.findRecord_tracks rfl h (has_of_tracks htracks)
  have hmoved := hmoves [] (.change (.append (some "exit") (some "sum"))) none none
    (by decide +kernel) ⟨5⟩ htracks (by decide +kernel) (by decide +kernel)
  exact ⟨h, htracks, ⟨o, t, hrun, hsome.mpr ⟨⟨5⟩, htracks⟩⟩, hmoved.2⟩

end Script.Session

end SsaDebugInfo
