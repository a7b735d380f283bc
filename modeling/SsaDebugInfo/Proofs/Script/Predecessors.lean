import SsaDebugInfo.Proofs.Ir.Print
import SsaDebugInfo.Proofs.Script.Invariants
import SsaDebugInfo.Proofs.Script.Rules

/-!
# Predecessors in scripts

While the operations of a script hand over values as operands and make orderly placements, the
predecessors of a block are the blocks with a terminator that has the block among its operands, once
for each such terminator. A terminator that stands in no block counts as a predecessor that is none,
and then the function of the block cannot be written.

- `Session.ReachableBy.wellBuilt`: what holds of the stores of such sessions.
- `Session.ReachableBy.predecessors_branch`: predecessors, and which texts can be written.
- `Session.unplaced_branch_faults`: a branch that stands in no block.
-/

namespace SsaDebugInfo.Script.Session

open Act Store

variable {session : Session}

/-- Whether an operation hands over values as operands and makes orderly placements. -/
def buildsWell (session : Session) (operation : Operation) (bindTo into : Given) : Bool :=
  operation.permitted { values := true } session.labels session.store &&
    session.follows (.orderly false) operation bindTo into

theorem Reachable.wrapsOlder {d : Discipline} (h : Reachable d session) :
    session.store.WrapsOlder :=
  (h.induction wrapsOlder_initial (fun hs hwraps he => hwraps.kept_by_edit hs he)
    fun _ hwraps => hwraps.collect).2

/-- Users and operands agree, and so do links and lists. -/
theorem ReachableBy.wellBuilt (h : ReachableBy buildsWell session) :
    session.store.UseDef ∧ session.store.Contained := by
  constructor
  · have hreachable : Reachable { values := true } session :=
      h.permitted fun _ _ _ _ hallows => (Bool.and_eq_true_iff.mp hallows).1
    exact hreachable.useDef rfl
  · have horderly : ReachableBy (follows (.orderly false)) session :=
      h.mono fun _ _ _ _ hallows => (Bool.and_eq_true_iff.mp hallows).2
    exact (horderly.upheld orderly_upholds).store_contained

/-- While the operations build well, a block precedes another as often as a terminator in its list
has the other among its operands; where no return has it, these are the branches. There is a
predecessor that is no block if and only if such a terminator stands in no block. A function with
joins that take data from blocks can be written if and only if there is no such terminator for any
of its blocks, no expression of its records has a number that is too long to be written and, with
the comments on where instructions come from, it can be told where they do; a module if and only if
its global variables and functions can. -/
theorem ReachableBy.predecessors_branch (h : ReachableBy buildsWell session) :
    (∀ b c, (session.store.predecessors b).count (some c) =
      (session.store.instructionsOf c).countP (session.store.targets Opcode.isTerminator b)) ∧
    (∀ b, (∀ slot, session.store.targets (· == .ret) b slot = false) → ∀ c,
      (session.store.predecessors b).count (some c) =
        (session.store.instructionsOf c).countP (session.store.targets Opcode.isBranch b)) ∧
    (∀ b, none ∈ session.store.predecessors b ↔
      ∃ x, session.store.targets Opcode.isTerminator b (.ofValue x) = true ∧
        session.store.blockOf? x = none) ∧
    (∀ (locs : Bool) (f : FunctionId), session.store.Has (.function f) →
      (∀ b ∈ (session.store.roster f).blocks, ∀ slot ∈ session.store.instructionsOf b,
        session.store.JoinsBlocks slot) →
      ((session.store.functionText locs f).isOk = true ↔
        (∀ b ∈ (session.store.roster f).blocks, ∀ x,
          session.store.targets Opcode.isTerminator b (.ofValue x) = true →
            session.store.blockOf? x ≠ none) ∧
        (∀ b ∈ (session.store.roster f).blocks, ∀ slot ∈ session.store.instructionsOf b,
          session.store.Describable slot) ∧
        (locs = true → ∀ b ∈ (session.store.roster f).blocks,
          ∀ slot ∈ session.store.instructionsOf b, session.store.Located slot))) ∧
    ∀ (locs : Bool) (module : ModuleId) (m : Module), session.store.get? module = some m →
      ((session.store.moduleText locs module).isOk = true ↔
        (∀ v ∈ m.globals, (session.store.entityText v).isOk = true) ∧
          ∀ f ∈ m.functions, (session.store.functionText locs f).isOk = true) := by
  obtain ⟨huses, hcontained⟩ := ReachableBy.wellBuilt h
  have hcount : ∀ b c, (session.store.predecessors b).count (some c) =
      (session.store.instructionsOf c).countP (session.store.targets Opcode.isTerminator b) :=
    fun b c => count_predecessors (h.sound.store.once b) huses hcontained
  have hnone : ∀ b, none ∈ session.store.predecessors b ↔
      ∃ x, session.store.targets Opcode.isTerminator b (.ofValue x) = true ∧
        session.store.blockOf? x = none := fun b => mem_predecessors huses
  refine ⟨hcount, fun b hret c => ?_, hnone, fun locs f hf hjoins => ?_,
    fun _ _ _ hm => isOk_moduleText_iff hm⟩
  · rw [hcount]
    exact List.countP_congr fun slot _ => by rw [targets_isTerminator hret]
  · rw [isOk_functionText_iff h.sound.store.closed h.reachable.wrapsOlder huses hcontained hf
      hjoins]
    -- that no predecessor is missing says that no terminator is detached
    refine and_congr_left fun _ => forall₂_congr fun b _ => ?_
    rw [hnone]
    constructor
    · intro h x htargets hblock
      exact h ⟨x, htargets, hblock⟩
    · rintro h ⟨x, htargets, hblock⟩
      exact h x htargets hblock

/-- A block that goes on in itself precedes itself. -/
example : (runAll [] {}
    [.run (.make (.block "b" [])) (some "b") none,
     .run (.make (.instruction (.branch (some "b")) "" none)) (some "go")
       (some "b")]).1.store.predecessors ⟨0⟩ = [some ⟨0⟩] := by decide +kernel

/-- A function with a condition and three blocks: the entry goes on in either of the others, and one
of these in the other, where data join. -/
def triangle : List Command :=
  [.run (.make (.argument "c" (.int 1))) (some "c") none,
   .run (.make (.function "f" .void [some "c"] none none)) (some "f") none,
   .run (.make (.block "entry" [])) (some "entry") (some "f"),
   .run (.make (.block "side" [])) (some "side") (some "f"),
   .run (.make (.block "end" [])) (some "end") (some "f"),
   .run (.make (.instruction (.branchIf (some "c") (some "side") (some "end")) "" none))
     (some "fork") (some "entry"),
   .run (.make (.instruction (.branch (some "end")) "" none)) (some "go") (some "side"),
   .run (.make (.instruction (.phi (.int 1)) "p" none)) (some "p") (some "end"),
   .run (.change (.addIncoming (some "p") (some "c") (some "side"))) none none]

/-- The session with that function. -/
def triangleSession : Session :=
  (runAll [] {} triangle).1

/-- The last block, value 3, is preceded by the other two, values 1 and 2, and the function can be
written. -/
theorem predecessors_branch_triangleSession :
    ReachableBy buildsWell triangleSession ∧
      triangleSession.store.predecessors ⟨3⟩ = [some ⟨1⟩, some ⟨2⟩] ∧
      (triangleSession.store.predecessors ⟨3⟩).count (some ⟨1⟩) =
        (triangleSession.store.instructionsOf ⟨1⟩).countP
          (triangleSession.store.targets Opcode.isTerminator ⟨3⟩) ∧
      none ∉ triangleSession.store.predecessors ⟨3⟩ ∧
      (triangleSession.store.functionText true ⟨0⟩).isOk = true := by
  have hshape : allowsAll buildsWell [] {} triangle = true ∧
      triangleSession.store.predecessors ⟨3⟩ = [some ⟨1⟩, some ⟨2⟩] ∧
      triangleSession.store.Has (.function ⟨0⟩) ∧
      ∀ b ∈ (triangleSession.store.roster ⟨0⟩).blocks,
        none ∉ triangleSession.store.predecessors b ∧
          ∀ slot ∈ triangleSession.store.instructionsOf b,
            triangleSession.store.JoinsBlocks slot ∧ triangleSession.store.Describable slot ∧
              triangleSession.store.Located slot := by
    decide +kernel
  obtain ⟨hallows, hpredecessors, hhas, hblocks⟩ := hshape
  have h : ReachableBy buildsWell triangleSession := reachableBy_runAll .new hallows
  obtain ⟨hcount, _, hnone, htext, _⟩ := ReachableBy.predecessors_branch h
  refine ⟨h, hpredecessors, hcount _ _, by rw [hpredecessors]; decide, ?_⟩
  refine (htext true ⟨0⟩ hhas fun b hb slot hslot => ((hblocks b hb).2 slot hslot).1).mpr
    ⟨fun b hb x htargets hblock => ?_, fun b hb slot hslot => ((hblocks b hb).2 slot hslot).2.1,
      fun _ b hb slot hslot => ((hblocks b hb).2 slot hslot).2.2⟩
  exact (hblocks b hb).1 ((hnone b).mpr ⟨x, htargets, hblock⟩)

/-- A function with a block, and a branch to the block that stands nowhere. -/
def unplacedBranch : List Command :=
  [.run (.make (.function "f" .void [] none none)) (some "f") none,
   .run (.make (.block "b" [])) (some "b") (some "f"),
   .run (.make (.instruction (.branch (some "b")) "" none)) (some "go") none]

/-- Everything succeeds, but the block, value 0, has a predecessor that is no block, and neither the
block nor its function can be written. -/
theorem unplaced_branch_faults :
    ReachableBy buildsWell (runAll [] {} unplacedBranch).1 ∧
      (runAll [] {} unplacedBranch).2.all (!·.isFailed) = true ∧
      (runAll [] {} unplacedBranch).1.store.predecessors ⟨0⟩ = [none] ∧
      (runAll [] {} unplacedBranch).1.store.functionText true ⟨0⟩ = .error .noSuchMember :=
  And.imp_left (reachableBy_runAll .new) (by decide +kernel)

end SsaDebugInfo.Script.Session
