import SsaDebugInfo.Proofs.Ir.Containment
import SsaDebugInfo.Proofs.Script.Rules

/-!
# Containment in scripts

While the operations of a script make orderly placements (`Rule.orderly`), links and lists agree
before and after each of them, whether it answers or faults.

- `Session.ReachableBy.contained`: links and lists in every session that is reached so.
- `Session.insert_leaves_link`: an insertion that does not find its place.
-/

namespace SsaDebugInfo.Script.Session

open Act Store

variable {session : Session}

/-- While the operations are orderly, links and lists agree in every session, also after an
operation that faults: an instruction stands in the list of a block if and only if the block is its
block, a block in that of a function if and only if the function is its function, and so do
arguments; no list has anything twice, and nothing is in two of them. -/
theorem ReachableBy.contained (h : ReachableBy (follows (.orderly false)) session) :
    session.store.Contained ∧
      (∀ x b c, .ofValue x ∈ session.store.instructionsOf b →
        .ofValue x ∈ session.store.instructionsOf c → b = c) ∧
      ∀ b f g, b ∈ (session.store.roster f).blocks → b ∈ (session.store.roster g).blocks →
        f = g := by
  have hcontained := (h.upheld orderly_upholds).store_contained
  refine ⟨hcontained, fun x b c hb hc => ?_, fun b f g hf hg => ?_⟩
  · have hxb := hcontained.mem_instructionsOf.mp hb
    have hxc := hcontained.mem_instructionsOf.mp hc
    exact Option.some_inj.mp (hxb.symm.trans hxc)
  · have hbf := ((hcontained.block f b).mp hf).2
    have hbg := ((hcontained.block g b).mp hg).2
    exact Option.some_inj.mp (hbf.symm.trans hbg)

/-- A function with an argument and a block, in which instructions are placed, moved and taken out
again; putting an instruction that stands there behind another faults, and so does taking it out of
a block that does not have it. -/
def assembly : List Command :=
  [.run (.make (.argument "x" (.int 32))) (some "x") none,
   .run (.make (.function "f" .void [some "x"] none none)) (some "f") none,
   .run (.make (.block "entry" [])) (some "entry") (some "f"),
   .run (.make (.block "exit" [])) (some "exit") (some "f"),
   .run (.make (.instruction (.arith "add" (some "x") (some "x")) "sum" none)) (some "sum")
     (some "entry"),
   .run (.make (.instruction (.ret (some "sum")) "" none)) (some "ret") none,
   .run (.change (.insert (some "entry") (some "ret") (some "sum"))) none none,
   .run (.change (.insertAfter (some "ret") (some "sum"))) none none,
   .run (.change (.remove (some "exit") (some "ret"))) none none,
   .run (.change (.remove (some "entry") (some "ret"))) none none,
   .run (.change (.setInstructions (some "exit") [some "ret"])) none none,
   .run (.metadata (.localVariable "v" none none 1 0)) (some "v") none,
   .run (.make (.bind (some "x") (some "v") none none 0 (.beside (some "sum") none)))
     (some "record") none,
   .run (.records (.migrate (some "x") (some "sum"))) none none]

theorem contained_assembly :
    ReachableBy (follows (.orderly false)) (runAll [] {} assembly).1 ∧
      (runAll [] {} assembly).1.store.Contained := by
  have h : ReachableBy (follows (.orderly false)) (runAll [] {} assembly).1 :=
    reachableBy_runAll .new (by decide +kernel)
  exact ⟨h, (ReachableBy.contained h).1⟩

/-- An instruction is to enter a block before another that is not in the block. -/
def strayInsertion : List Command :=
  [.run (.make (.block "b" [])) (some "b") none,
   .run (.make (.argument "a" (.int 32))) (some "a") none,
   .run (.make (.instruction (.arith "add" (some "a") (some "a")) "x" none)) (some "x") none,
   .run (.make (.instruction (.arith "add" (some "a") (some "a")) "y" none)) (some "y") none,
   .run (.change (.insert (some "b") (some "x") (some "y"))) none none]

/-- The insertion faults, and leaves the instruction, value 2, with a link to the block, value 0,
the list of which does not have it. -/
theorem insert_leaves_link :
    Reachable {} (runAll [] {} strayInsertion).1 ∧
      (runAll [] {} strayInsertion).1.store.blockOf? ⟨2⟩ = some ⟨0⟩ ∧
      .ofValue ⟨2⟩ ∉ (runAll [] {} strayInsertion).1.store.instructionsOf ⟨0⟩ ∧
      ¬ (runAll [] {} strayInsertion).1.store.Contained := by
  have hlink : (runAll [] {} strayInsertion).1.store.blockOf? ⟨2⟩ = some ⟨0⟩ := by decide +kernel
  have hlist : .ofValue ⟨2⟩ ∉ (runAll [] {} strayInsertion).1.store.instructionsOf ⟨0⟩ := by
    decide +kernel
  exact ⟨reachable_runAll .new (by decide +kernel), hlink, hlist,
    fun h => hlist (h.mem_instructionsOf.mpr hlink)⟩

end SsaDebugInfo.Script.Session
