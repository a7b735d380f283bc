import SsaDebugInfo.Proofs.Ir.Erasing
import SsaDebugInfo.Proofs.Script.Relocation

/-!
# Erasing in scripts

In reachable sessions where lists and links, users and operands agree and names are registered, an
instruction can be erased if and only if nothing but itself uses it, and erasing leaves no trace of
it in blocks, among uses and operands, nor of the name that it had where it stood. An instruction
that stands in no block may be in a function all the same: what has taken its link may not have been
able to release its name. Erasing takes an instruction out of its block only, so it leaves such a
one in its function.

- `Reachable.erase_iff`: when erasing succeeds, and what it leaves.
- `erase_leaves_function`: an instruction without a block stays in its function.
-/

namespace SsaDebugInfo.Script.Session

open Act Store

variable {d : Discipline} {session : Session} {x : ValueId}

/-- Where lists and links, users and operands agree and names are registered, an instruction is
erased if and only if no user other than itself is among its uses; then nothing leads to it, and all
else is as it was. -/
theorem Reachable.erase_iff (h : Reachable d session) (hlists : session.store.ListsAgree)
    (huses : session.store.UseDef) (hregistered : session.store.Registered)
    (hx : session.store.formOf? x = some .instruction) :
    ((∃ t, (erase x).run session.store = (.ok (), t)) ↔ ∀ u ∈ session.store.usesOf x, u = x) ∧
      ∀ t, (erase x).run session.store = (.ok (), t) → session.store.Erased x t := by
  have hends := erase_ends h.sound.store hlists huses h.proper hregistered hx
  refine ⟨⟨?_, fun hunused => ?_⟩, fun t hrun => (hends.ok hrun).2⟩
  · rintro ⟨t, hrun⟩
    exact (hends.ok hrun).1
  · rcases hrun : (erase x).run session.store with ⟨⟨f⟩ | ⟨⟩, t⟩
    · obtain ⟨_, u, hu, hne⟩ := hends.error hrun
      exact absurd (hunused u hu) hne
    · exact ⟨t, rfl⟩

/-- A block with a sum and a phi that takes itself from the block, twice. -/
def turningPhi : List Command :=
  [.run (.make (.argument "a" (.int 32))) (some "a") none,
   .run (.make (.function "f" .void [some "a"] none none)) (some "f") none,
   .run (.make (.block "entry" [])) (some "entry") (some "f"),
   .run (.make (.instruction (.phi (.int 32)) "p" none)) (some "p") (some "entry"),
   .run (.make (.instruction (.arith "add" (some "a") (some "a")) "sum" none)) (some "sum")
     (some "entry"),
   .run (.change (.addIncoming (some "p") (some "p") (some "entry"))) none none,
   .run (.change (.addIncoming (some "p") (some "p") (some "entry"))) none none]

/-- The phi, value 2, which only itself uses, can be erased: the block, value 1, has no uses then,
and the function no value with its name. -/
theorem erase_iff_turningPhi :
    Reachable { values := true } (runAll [] {} turningPhi).1 ∧
      (runAll [] {} turningPhi).1.store.usesOf ⟨2⟩ = [⟨2⟩] ∧
      (runAll [] {} turningPhi).1.store.operandsOf ⟨2⟩ =
        [.ofValue ⟨2⟩, .ofValue ⟨1⟩, .ofValue ⟨2⟩, .ofValue ⟨1⟩] ∧
      ∃ t, (erase ⟨2⟩).run (runAll [] {} turningPhi).1.store = (.ok (), t) ∧
        t.operandsOf ⟨2⟩ = [] ∧ t.functionOf? ⟨2⟩ = none ∧ (∀ v, (⟨2⟩ : ValueId) ∉ t.usesOf v) ∧
        t.instructionsOf ⟨1⟩ = [.ofValue ⟨3⟩] ∧ "p" ∉ (t.registry ⟨0⟩).names := by
  have h : Reachable { values := true } (runAll [] {} turningPhi).1 :=
    reachable_runAll .new (by decide +kernel)
  have hstart : (runAll [] {} turningPhi).1.store.ListsAgree ∧
      (runAll [] {} turningPhi).1.store.Registered ∧
      (runAll [] {} turningPhi).1.store.formOf? ⟨2⟩ = some .instruction ∧
      (runAll [] {} turningPhi).1.store.usesOf ⟨2⟩ = [⟨2⟩] ∧
      (runAll [] {} turningPhi).1.store.operandsOf ⟨2⟩ =
        [.ofValue ⟨2⟩, .ofValue ⟨1⟩, .ofValue ⟨2⟩, .ofValue ⟨1⟩] ∧
      (runAll [] {} turningPhi).1.store.blockOf? ⟨2⟩ = some ⟨1⟩ ∧
      (runAll [] {} turningPhi).1.store.seat? ⟨2⟩ = some (⟨0⟩, "p") ∧
      (runAll [] {} turningPhi).1.store.instructionsOf ⟨1⟩ = [.ofValue ⟨2⟩, .ofValue ⟨3⟩] := by
    decide +kernel
  obtain ⟨hlists, hregistered, hform, huses, hoperands, hblock, hseat, hlist⟩ := hstart
  obtain ⟨hiff, herased⟩ :=
    Reachable.erase_iff h hlists (h.useDef rfl) hregistered hform
  obtain ⟨t, hrun⟩ := hiff.mpr (by simp [huses])
  have ht := herased t hrun
  refine ⟨h, huses, hoperands, t, hrun, ht.noOperands, ?_, ht.amongNoUses, ?_, ?_⟩
  · rw [ht.function, hblock]
    simp
  · rw [ht.instructionsOf, hlist]
    decide
  · rw [ht.mem_names, hblock]
    exact fun hmem => hmem.2 ⟨by simp, hseat⟩

/-- A sum is to be put in front of itself into a block of a function, in which it is not: it is
linked to the block and enters the function, but is on the list of another block only. When it is
taken out of that one under a name that is not registered, it loses the link to the block but stays
in the function. Then it gets back its name, and the block where it is listed goes. -/
def strayedSum : List Command :=
  [.run (.make (.argument "a" (.int 32))) (some "a") none,
   .run (.make (.function "f" .void [some "a"] none none)) (some "f") none,
   .run (.make (.block "entry" [])) (some "entry") (some "f"),
   .run (.make (.block "loose" [])) (some "loose") none,
   .run (.make (.instruction (.arith "add" (some "a") (some "a")) "sum" none)) (some "sum")
     (some "loose"),
   .run (.change (.insert (some "entry") (some "sum") (some "sum"))) none none,
   .run (.change (.setName (some "sum") "other")) none none,
   .run (.change (.remove (some "loose") (some "sum"))) none none,
   .run (.change (.setName (some "sum") "sum")) none none,
   .drop "loose"]

/-- The sum, value 3, stands in no block and is in function 0. Lists and links, users and operands
agree, and the names of values are registered and different. Nothing uses the sum, and it is erased;
but it stays in the function, which has its name. -/
theorem erase_leaves_function :
    Reachable { values := true } (runAll [] {} strayedSum).1 ∧
      (runAll [] {} strayedSum).1.store.ListsAgree ∧
      (runAll [] {} strayedSum).1.store.UseDef ∧
      (runAll [] {} strayedSum).1.store.Registered ∧
      (∀ i < 4, ∀ j < 4, ((runAll [] {} strayedSum).1.store.seat? ⟨i⟩).isSome = true →
        (runAll [] {} strayedSum).1.store.seat? ⟨i⟩ =
          (runAll [] {} strayedSum).1.store.seat? ⟨j⟩ → i = j) ∧
      (runAll [] {} strayedSum).1.store.formOf? ⟨3⟩ = some .instruction ∧
      (runAll [] {} strayedSum).1.store.usesOf ⟨3⟩ = [] ∧
      ((erase ⟨3⟩).run (runAll [] {} strayedSum).1.store).1 = .ok () ∧
      ((erase ⟨3⟩).run (runAll [] {} strayedSum).1.store).2.functionOf? ⟨3⟩ = some ⟨0⟩ ∧
      "sum" ∈ (((erase ⟨3⟩).run (runAll [] {} strayedSum).1.store).2.registry ⟨0⟩).names := by
  have h : Reachable { values := true } (runAll [] {} strayedSum).1 :=
    reachable_runAll .new (by decide +kernel)
  exact ⟨h, by decide +kernel, h.useDef rfl, by decide +kernel, by decide +kernel,
    by decide +kernel⟩

end SsaDebugInfo.Script.Session
