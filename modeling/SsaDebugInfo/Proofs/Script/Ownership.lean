import SsaDebugInfo.Proofs.Records.Ownership
import SsaDebugInfo.Proofs.Script.Invariants
import SsaDebugInfo.Proofs.Script.Leads

/-!
# Handles follow records

While the debug operations alone make records and change their operands, a context knows handles and
wrappers as long as something refers to them and no longer: with the last record of a constant both
entries go, and with any of them both stay, and the record yields the constant.

- `Leads.secured`: a wrapper of a constant keeps both entries as long as it is there.
- `Reachable.handles_follow_records`: when entries go, and when they stay.
-/

namespace SsaDebugInfo.Script.Session

open Act Store

variable {d : Discipline} {allows : Session → Operation → Given → Given → Bool}
  {session next : Session} {v w : ValueId} {n : NodeId} {context : ContextId}

/-- Whether a discipline permits an operation in a session. -/
def permits (d : Discipline) (session : Session) (operation : Operation) (_ _ : Given) : Bool :=
  operation.permitted d session.labels session.store

theorem Leads.permitted (hleads : Leads (permits d) session next) (h : Reachable d session) :
    Reachable d next := by
  induction hleads with
  | refl => exact h
  | tail _ hnext ih =>
    cases hnext with
    | run bindTo into hpermits => exact ih.run bindTo into hpermits
    | drop label => exact ih.drop label
    | openNotes engine notes => exact ih.openNotes engine notes
    | closeNotes engine count escaped => exact ih.closeNotes engine count escaped
    | settle watch step => exact ih.settle watch step

/-- Nothing refers to a handle of the value or to a wrapper of one: no label, nothing that an
unfinished command holds on to, and no object. -/
def Unheld (session : Session) (v : ValueId) : Prop :=
  session.store.Unheld session.roots v

instance : Decidable (session.Unheld v) :=
  inferInstanceAs (Decidable (session.store.Unheld session.roots v))

theorem Reachable.strong (h : Reachable d session) : session.store.Strong :=
  h.touching strong_initial (fun hs htouch => htouch.strong hs) fun _ hs => hs.collect

/-- As long as the wrapper of a constant is there, it is secured, and the constant is what it was
made as. -/
theorem Leads.secured (hleads : Leads allows session next) (h : Reachable {} session)
    (hsecured : session.store.Secured w n v context) {o : Value}
    (ho : session.store.get? v = some o) (hw : next.store.Has (.value w)) :
    next.store.Secured w n v context ∧ ∃ p, next.store.get? v = some p ∧ p.core = o.core := by
  -- once the wrapper is gone it does not come back, as its identity has been given out
  suffices hall : w.index < next.store.values.size ∧ (next.store.Has (.value w) →
      next.store.Secured w n v context ∧ ∃ p, next.store.get? v = some p ∧ p.core = o.core) from
    hall.2 hw
  clear hw
  induction hleads with
  | refl =>
    obtain ⟨p, hp⟩ := has_value_iff.mp (has_of_wrappedAt hsecured.wrapped)
    exact ⟨index_lt_of_get? hp, fun _ => ⟨hsecured, o, ho, rfl⟩⟩
  | @tail before next hbefore hnext ih =>
    obtain ⟨hlt, hkept⟩ := ih
    rcases hnext.changes (Leads.reachable hbefore h).sound with ⟨⟨_, htouches⟩, hmore⟩ | hsettled
    · refine ⟨Nat.lt_of_lt_of_le hlt (hmore.size .value), fun hw => ?_⟩
      obtain ⟨hs, p, hp, hcore⟩ := hkept (hmore.has_value_of_lt hw hlt)
      obtain ⟨q, hq, hcore'⟩ := htouches.persists hp
      exact ⟨hs.touched hmore htouches, q, hq, Eq.trans hcore' hcore⟩
    · rw [hsettled, settledStore]
      refine ⟨by rw [size_values_collect]; exact hlt, fun hw => ?_⟩
      obtain ⟨hlive, hw⟩ := has_collect.mp hw
      obtain ⟨hs, p, hp, hcore⟩ := hkept hw
      have hs' := hs.touched (aside_annotate before.store.labelTypes []).toSameTables.more
        (.single (.annotate (c := .quiet) _ _))
      refine ⟨hs'.collect hlive, p, ?_, hcore⟩
      exact (get?_collect (by decide)).trans ((if_pos (hs'.live hlive).2).trans hp)

/-- While the debug operations alone make records and change their operands: after the collection
that ends a step no context knows a handle of a value, or a wrapper of it, if nothing refers to one.
And a record that tracks a constant holds the wrapper of the constant's handle, and as long as there
is a record that holds it, whatever happens, the constant is there as it was made, its context knows
both the handle and the wrapper, and the record tracks the constant and yields it. -/
theorem Reachable.handles_follow_records (hd : d.records = true) (h : Reachable d session)
    (v : ValueId) :
    (∀ (watch : List Label) (step : List Entry → List (Label × Snapshot) → Step),
      (session.settle watch step).1.Unheld v →
      ∀ (context : ContextId) (c : Context),
        (session.settle watch step).1.store.get? context = some c →
        c.handle? v = none ∧ ∀ n, session.store.handleAt n = some v → c.wrapper? n = none) ∧
    ∀ r o, session.store.tracks r v = true → session.store.get? v = some o → o.isConstant = true →
      ∃ w n context, session.store.operandsOf r = [.ofValue w] ∧
        ∀ next, Leads (permits d) session next →
          ∀ r, next.store.isRecord r = true → Slot.ofValue w ∈ next.store.operandsOf r →
            (∃ p, next.store.get? v = some p ∧ p.core = o.core) ∧
            next.store.contextAt v = some context ∧
            (∃ c : Context, next.store.get? context = some c ∧ c.handle? v = some n ∧
              c.wrapper? n = some w) ∧
            next.store.tracks r v = true ∧
            (trackedBy r).run next.store = (.ok (some v), next.store) := by
  refine ⟨fun watch step hunheld context c hc => ?_, fun r o htracks ho hconstant => ?_⟩
  · have hsound : ({ session.store with journal := [] } : Store).Sound :=
      h.sound.store.of_aside (aside_annotate session.store.labelTypes [])
    exact ⟨hunheld.handle?_eq_none hsound hc, fun n hn => hunheld.wrapper?_eq_none hsound hc hn⟩
  · obtain ⟨w, n, context, hoperands, hsecured⟩ :=
      (h.recorded hd).secured h.sound.store h.strong htracks ho hconstant
    refine ⟨w, n, context, hoperands, fun next hleads r hr hheld => ?_⟩
    have hnext := hleads.permitted h
    have hw := hasIn_some.mp (hnext.sound.store.closed.hasIn_operand hheld)
    obtain ⟨hsecured, hmade⟩ := hleads.secured (h.leads.reachable .new) hsecured ho hw
    -- a record made by the debug operations holds nothing else
    have hoperands : next.store.operandsOf r = [.ofValue w] := by
      rcases ((hnext.recorded hd) r hr).2 with hnone | ⟨w', hw', _⟩
      · rw [hnone] at hheld
        cases hheld
      · rw [hw'] at hheld ⊢
        rw [List.mem_singleton.mp hheld]
    exact ⟨hmade, hsecured.fixed, hsecured.lookup hnext.sound.store,
      hsecured.tracked hr hoperands⟩

/-- A sum with records of two constants of a context. -/
def twoConstants : List Command :=
  [.run (.metadata .context) (some "context") none,
   .run (.make (.argument "a" (.int 32))) (some "a") none,
   .run (.make (.function "f" (.int 32) [some "a"] none none)) (some "f") none,
   .run (.make (.block "entry" [])) (some "entry") (some "f"),
   .run (.make (.instruction (.arith "add" (some "a") (some "a")) "sum" none)) (some "sum")
     (some "entry"),
   .run (.metadata (.localVariable "x" none none 1 0)) (some "x") none,
   .run (.make (.constant (.integer 7) (.int 32) (some "context"))) (some "seven") none,
   .run (.make (.constant (.integer 9) (.int 32) (some "context"))) (some "nine") none,
   .run (.make (.bind (some "seven") (some "x") none none 0 (.beside none (some "sum"))))
     (some "first") none,
   .run (.make (.bind (some "nine") (some "x") none none 0 (.beside none (some "sum"))))
     (some "second") none]

/-- The session with the two records. -/
def twoConstantsSession : Session :=
  (runAll [] {} twoConstants).1

/-- One record has just been erased, and nothing has been collected yet. -/
def oneErased : Session :=
  (twoConstantsSession.runOperation (.change (.erase (some "first"))) none none).2

/-- The other record and its constant have lost their labels, too. -/
def unlabelled : Session :=
  (runAll [] twoConstantsSession [.run (.change (.erase (some "first"))) none none,
    .drop "second", .drop "nine"]).1

/-- With the erased record go the handle of seven, value 3, which is node 1, and its wrapper. The
other record, value 8, has no label any more and still yields nine, value 4. -/
theorem handles_follow_records_twoConstants :
    Reachable { records := true } oneErased ∧
      oneErased.store.handlesIn ⟨1⟩ = [(⟨3⟩, ⟨1⟩), (⟨4⟩, ⟨2⟩)] ∧
      (oneErased.settle [] (.done .nothing)).1.Unheld ⟨3⟩ ∧
      (∀ (context : ContextId) (c : Context),
        (oneErased.settle [] (.done .nothing)).1.store.get? context = some c →
        c.handle? ⟨3⟩ = none ∧ c.wrapper? ⟨1⟩ = none) ∧
      Leads (permits { records := true }) twoConstantsSession unlabelled ∧
      (∃ (context : ContextId) (n : NodeId) (c : Context),
        unlabelled.store.get? context = some c ∧
        c.handle? ⟨4⟩ = some n ∧ c.wrapper? n = some ⟨7⟩) ∧
      (trackedBy ⟨8⟩).run unlabelled.store = (.ok (some ⟨4⟩), unlabelled.store) := by
  have h : Reachable { records := true } twoConstantsSession :=
    reachable_runAll .new (by decide +kernel)
  have herased : Reachable { records := true } oneErased := h.run none none (by decide +kernel)
  have hleads : Leads (permits { records := true }) twoConstantsSession unlabelled :=
    leads_runAll (by decide +kernel)
  have hfreed : oneErased.store.handlesIn ⟨1⟩ = [(⟨3⟩, ⟨1⟩), (⟨4⟩, ⟨2⟩)] ∧
      oneErased.store.handleAt ⟨1⟩ = some ⟨3⟩ ∧
      (oneErased.settle [] (.done .nothing)).1.Unheld ⟨3⟩ := by decide +kernel
  have hkept : twoConstantsSession.store.tracks ⟨8⟩ ⟨4⟩ = true ∧
      ((twoConstantsSession.store.get? (⟨4⟩ : ValueId)).map Value.isConstant) = some true ∧
      twoConstantsSession.store.operandsOf ⟨8⟩ = [.ofValue ⟨7⟩] ∧
      unlabelled.store.isRecord ⟨8⟩ = true ∧
      Slot.ofValue ⟨7⟩ ∈ unlabelled.store.operandsOf ⟨8⟩ := by decide +kernel
  obtain ⟨hentries, hhandle, hunheld⟩ := hfreed
  obtain ⟨htracks, hconstant, hoperands, hrecord, hheld⟩ := hkept
  obtain ⟨o, ho, hconstant⟩ := Option.map_eq_some_iff.mp hconstant
  refine ⟨herased, hentries, hunheld, fun context c hc => ?_, hleads, ?_⟩
  · obtain ⟨hnone, hwrapper⟩ :=
      (Reachable.handles_follow_records rfl herased ⟨3⟩).1 [] _ hunheld context c hc
    exact ⟨hnone, hwrapper ⟨1⟩ hhandle⟩
  · obtain ⟨w, n, context, hw, hstays⟩ :=
      (Reachable.handles_follow_records rfl h ⟨4⟩).2 ⟨8⟩ o htracks ho hconstant
    rw [hoperands] at hw
    cases hw
    obtain ⟨_, _, ⟨c, hc⟩, _, hyields⟩ := hstays unlabelled hleads ⟨8⟩ hrecord hheld
    exact ⟨⟨context, n, c, hc⟩, hyields⟩

end SsaDebugInfo.Script.Session
