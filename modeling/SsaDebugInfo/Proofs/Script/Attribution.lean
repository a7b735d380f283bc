import SsaDebugInfo.Proofs.Attribution
import SsaDebugInfo.Proofs.Script.Containment

/-!
# The function of an instruction in scripts

A block hands its function on to the instructions that enter it, but not to those that it has when
it enters a function. While blocks enter functions empty, and all placements are orderly otherwise,
the instructions of a block have the function of the block. So a record is measured by the layout of
the function that contains it, and a diagnostic names the function that contains what it is about.

- `Session.ReachableBy.function_of_block`: all of this, in every session reached.
-/

namespace SsaDebugInfo.Script.Session

open Act Store

variable {session : Session} {t : Store} {b x : ValueId} {f : FunctionId}

theorem ReachableBy.functionOf? (h : ReachableBy (follows (.orderly true)) session)
    (hx : .ofValue x ∈ session.store.instructionsOf b) :
    session.store.functionOf? x = session.store.functionOf? b := by
  rw [← function?_arrangement, ← function?_arrangement]
  refine (h.upheld orderly_upholds).informed rfl b x ?_
  rw [show (session.store.arrangement.standing b).instructions = _ from instructions_standing b]
  exact hx

/-- An instruction of a block of a function has that function. -/
theorem ReachableBy.functionOf?_of_mem (h : ReachableBy (follows (.orderly true)) session)
    (hx : .ofValue x ∈ session.store.instructionsOf b) (hb : b ∈ (session.store.roster f).blocks) :
    session.store.functionOf? x = some f :=
  (h.functionOf? hx).trans (((h.upheld orderly_upholds).store_contained.block f b).mp hb).2

/-- While blocks enter functions empty and placements are orderly, an instruction has the function
of the block that it stands in, in every session. So the types that scattering measures for a record
have the sizes that they have in the function that contains the record, and a diagnostic about an
instruction names the function that contains what the diagnostic is attributed to. -/
theorem ReachableBy.function_of_block (h : ReachableBy (follows (.orderly true)) session) :
    (∀ b x, .ofValue x ∈ session.store.instructionsOf b →
      session.store.functionOf? x = session.store.functionOf? b) ∧
    (∀ slot r t b f type, (findRecord slot).run session.store = (.ok (some r), t) →
      .ofValue r ∈ session.store.instructionsOf b → b ∈ (session.store.roster f).blocks →
      (sizeForRecord r type).run t = (sizeInFunction (some f) type).run t) ∧
    ∀ emitter x reason level id t b f,
      (emitOnInstruction emitter (.ofValue x) reason level).run session.store = (.ok id, t) →
      .ofValue (session.store.attributed emitter.depth x) ∈ session.store.instructionsOf b →
      b ∈ (session.store.roster f).blocks →
      ∃ diagnostic, t.get? id = some diagnostic ∧ diagnostic.function = some (.function f) := by
  refine ⟨fun b x hx => h.functionOf? hx, ?_, ?_⟩
  · intro slot r t b f type hfind hr hb
    have hstill : session.store.Unmoved t := ((touches_findRecord slot).still.ends _).ok hfind
    rw [run_sizeForRecord, hstill.functionOf?, h.functionOf?_of_mem hr hb]
  · intro emitter x reason level id t b f hemit hx hb
    obtain ⟨diagnostic, hdiagnostic, hfunction⟩ :=
      (emitOnInstruction_ends emitter x reason level).ok hemit
    rw [h.functionOf?_of_mem hx hb] at hfunction
    exact ⟨diagnostic, hdiagnostic, hfunction⟩

/-- A join that enters a block of a function gets the function. -/
example : (runAll [] {}
    [.run (.make (.function "f" .void [] none none)) (some "f") none,
     .run (.make (.block "b" [])) (some "b") (some "f"),
     .run (.make (.instruction (.phi (.int 1)) "p" none)) (some "p")
       (some "b")]).1.store.functionOf? ⟨1⟩ = some ⟨0⟩ := by decide +kernel

/-- A vector of pointers, in a function of a module where pointers have 32 bits, with a record. -/
def describedVector : List Command :=
  [.run (.make (.argument "v" (.vector 2 (.pointer 0)))) (some "v") none,
   .run (.make (.argument "p" (.pointer 0))) (some "p") none,
   .run (.make (.function "f" .void [some "v", some "p"] none none)) (some "f") none,
   .run (.modules (.module "m" none (.described "e-p:32:32"))) (some "m") none,
   .run (.modules (.addFunction (some "m") (some "f"))) none none,
   .run (.make (.block "entry" [])) (some "entry") (some "f"),
   .run (.make (.constant (.integer 0) (.int 32) none)) (some "first") none,
   .run (.make (.instruction (.insertElement (some "v") (some "p") (some "first")) "w" none))
     (some "w") (some "entry"),
   .run (.metadata (.localVariable "x" none none 1 0)) (some "x") none,
   .run (.make (.bind (some "w") (some "x") none none 0 (.beside none (some "w"))))
     (some "record") none,
   .run (.diagnostics (.emitter none 4)) (some "emitter") none]

/-- The vector, value 4, and its record, value 6, are in the block, value 2, of function 0. A
pointer has 32 bits for the record, and a warning about the vector names the function. -/
theorem function_of_block_describedVector :
    ReachableBy (follows (.orderly true)) (runAll [] {} describedVector).1 ∧
      (runAll [] {} describedVector).1.store.functionOf? ⟨4⟩ = some ⟨0⟩ ∧
      (∃ t, (findRecord (.ofValue ⟨4⟩)).run (runAll [] {} describedVector).1.store =
          (.ok (some ⟨6⟩), t) ∧
        ((sizeForRecord ⟨6⟩ (.pointer 0)).run t).1 = .ok 32) ∧
      ∃ t diagnostic, (emitOnInstruction ⟨⟨0⟩, 4⟩ (.ofValue ⟨4⟩) "unused" (some "warning")).run
          (runAll [] {} describedVector).1.store = (.ok ⟨0⟩, t) ∧
        t.get? (⟨0⟩ : DiagnosticId) = some diagnostic ∧
        diagnostic.function = some (.function ⟨0⟩) := by
  have h : ReachableBy (follows (.orderly true)) (runAll [] {} describedVector).1 :=
    reachableBy_runAll .new (by decide +kernel)
  obtain ⟨hfunction, hsize, hdiagnostic⟩ := ReachableBy.function_of_block h
  have hstart : (runAll [] {} describedVector).1.store.functionOf? ⟨2⟩ = some ⟨0⟩ ∧
      ⟨2⟩ ∈ ((runAll [] {} describedVector).1.store.roster ⟨0⟩).blocks ∧
      (∀ n ∈ [4, 6],
        .ofValue ⟨n⟩ ∈ (runAll [] {} describedVector).1.store.instructionsOf ⟨2⟩) ∧
      ((findRecord (.ofValue ⟨4⟩)).run (runAll [] {} describedVector).1.store).1 =
        .ok (some ⟨6⟩) ∧
      ((emitOnInstruction ⟨⟨0⟩, 4⟩ (.ofValue ⟨4⟩) "unused" (some "warning")).run
        (runAll [] {} describedVector).1.store).1 = .ok ⟨0⟩ ∧
      ((sizeInFunction (some ⟨0⟩) (.pointer 0)).run ((findRecord (.ofValue ⟨4⟩)).run
        (runAll [] {} describedVector).1.store).2).1 = .ok 32 ∧
      (runAll [] {} describedVector).1.store.attributed 4 ⟨4⟩ = ⟨4⟩ := by
    decide +kernel
  obtain ⟨hblock, hroster, hmem, hfind, hemit, hwidth, hattributed⟩ := hstart
  refine ⟨h, (hfunction _ _ (hmem 4 (by decide))).trans hblock, ⟨_, run_eq_ok hfind, ?_⟩, ?_⟩
  · rw [hsize _ _ _ _ _ (.pointer 0) (run_eq_ok hfind) (hmem 6 (by decide)) hroster]
    exact hwidth
  · obtain ⟨diagnostic, hget, hnamed⟩ := hdiagnostic _ _ _ _ _ _ _ ⟨0⟩ (run_eq_ok hemit)
      (hattributed.symm ▸ hmem 4 (by decide)) hroster
    exact ⟨_, diagnostic, run_eq_ok hemit, hget, hnamed⟩

/-- A block is filled before it enters a function. -/
def filledFirst : List Command :=
  [.run (.make (.argument "a" (.int 32))) (some "a") none,
   .run (.make (.function "f" .void [some "a"] none none)) (some "f") none,
   .run (.make (.instruction (.arith "add" (some "a") (some "a")) "x" none)) (some "x") none,
   .run (.make (.block "b" [some "x"])) (some "b") none,
   .run (.change (.addBlock (some "f") (some "b"))) none none]

/-- Everything succeeds, and the instruction, value 1, stands in a block, value 2, that has a
function, and has no function itself. -/
theorem addBlock_leaves_instructions_without_function :
    Reachable {} (runAll [] {} filledFirst).1 ∧
      (runAll [] {} filledFirst).2.all (!·.isFailed) = true ∧
      .ofValue ⟨1⟩ ∈ (runAll [] {} filledFirst).1.store.instructionsOf ⟨2⟩ ∧
      (runAll [] {} filledFirst).1.store.functionOf? ⟨2⟩ = some ⟨0⟩ ∧
      (runAll [] {} filledFirst).1.store.functionOf? ⟨1⟩ = none :=
  ⟨reachable_runAll .new (by decide +kernel), by decide +kernel⟩

end SsaDebugInfo.Script.Session
