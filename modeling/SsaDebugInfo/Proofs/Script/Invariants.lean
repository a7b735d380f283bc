import SsaDebugInfo.Proofs.Records.Recorded
import SsaDebugInfo.Proofs.Script.Session

/-!
# What holds between commands

The invariants of stores hold in the stores of all reachable sessions, and so after every operation,
whether it answers or faults.

- `Reachable.useDef`: users and operands agree while all operands handed over are values.
- `Reachable.recorded`: records hold tied wrappers while the debug operations alone make records and
  change their operands.
- `Reachable.uses_iff_operands`: users and operands agree before and after every operation, and no
  operation misses a user that it removes.
-/

namespace SsaDebugInfo.Script.Session

open Act Store

variable {d : Discipline} {session : Session}

theorem Reachable.useDef (hd : d.values = true) (h : Reachable d session) :
    session.store.UseDef :=
  (h.induction useDef_initial (fun hs huses he => (huses.kept_by_edit hd hs he).1)
    fun hs huses => huses.collect hs _).2

theorem Reachable.recorded (hd : d.records = true) (h : Reachable d session) :
    session.store.Recorded :=
  (h.induction recorded_initial (fun hs hrecorded he => hrecorded.kept_by_edit hd hs he)
    fun hs hrecorded => hrecorded.collect hs _).2

/-- While users and operands agree, a permitted operation does not fault for a user that is missing
among the uses of a value: the edit at fault would be one that keeps users and operands in step. -/
theorem ne_notAmongUses_of_led {α : Type} (hd : d.values = true) (hs : session.store.Sound)
    (huses : session.store.UseDef) {outcome : Except Fault α × Session}
    (h : Led d session outcome) : outcome.1 ≠ .error .notAmongUses := by
  intro hfault
  obtain ⟨t, e, hedits, he, hmissed⟩ := h.fault _ hfault rfl
  obtain ⟨ht, huses'⟩ :=
    hedits.induction (fun hs huses he => (UseDef.kept_by_edit hd hs huses he).1) hs huses
  exact (UseDef.kept_by_edit hd ht huses' he).2 hmissed

/-- While all operands handed over are values, a user stands among the uses of exactly the values
that are its operands: in every reachable session, and after every operation there, whether it
answers or faults. No operation misses a user that it wants to remove. -/
theorem Reachable.uses_iff_operands (hd : d.values = true) (h : Reachable d session) :
    (∀ u v, u ∈ session.store.usesOf v ↔ Slot.ofValue v ∈ session.store.operandsOf u) ∧
      ∀ (operation : Operation) (bindTo into : Given),
        operation.permitted d session.labels session.store = true →
        (session.runOperation operation bindTo into).1 ≠ .error .notAmongUses ∧
        ∀ u v, u ∈ (session.runOperation operation bindTo into).2.store.usesOf v ↔
          Slot.ofValue v ∈ (session.runOperation operation bindTo into).2.store.operandsOf u := by
  have huses := h.useDef hd
  refine ⟨fun u => (huses u).mem_iff, fun operation bindTo into hpermitted => ⟨?_, fun u => ?_⟩⟩
  · have hled := led_runOperation h.sound hpermitted bindTo into
    exact ne_notAmongUses_of_led hd h.sound.store huses hled
  · have hnext : Reachable d (session.runOperation operation bindTo into).2 :=
      h.run bindTo into hpermitted
    exact (hnext.useDef hd u).mem_iff

/-- A block with a join that joins itself and a sum that takes one value twice; then one operand of
the sum becomes the join, and erasing the join faults because the sum uses it. -/
def loop : List Command :=
  [.run (.make (.argument "x" (.int 32))) (some "x") none,
   .run (.make (.block "loop" [])) (some "loop") none,
   .run (.make (.instruction (.phi (.int 32)) "p" none)) (some "p") (some "loop"),
   .run (.make (.instruction (.arith "add" (some "x") (some "x")) "twice" none)) (some "twice")
     (some "loop"),
   .run (.change (.addIncoming (some "p") (some "p") (some "loop"))) none none,
   .run (.change (.setOperand (some "twice") (-1) (some "p"))) none none,
   .run (.change (.erase (some "p"))) none none]

/-- After the loop has been built and an erasure has faulted, users and operands agree, and dropping
the operands of the sum misses no user. -/
theorem uses_iff_operands_loop :
    Reachable { values := true } (runAll [] {} loop).1 ∧
      (∀ u v, u ∈ (runAll [] {} loop).1.store.usesOf v ↔
        Slot.ofValue v ∈ (runAll [] {} loop).1.store.operandsOf u) ∧
      ((runAll [] {} loop).1.runOperation (.change (.dropReferences (some "twice"))) none none).1 ≠
        .error .notAmongUses := by
  have h : Reachable { values := true } (runAll [] {} loop).1 :=
    reachable_runAll .new (by decide +kernel)
  obtain ⟨hagree, hkeep⟩ := Reachable.uses_iff_operands rfl h
  exact ⟨h, hagree, (hkeep _ none none (by decide +kernel)).1⟩

end SsaDebugInfo.Script.Session
