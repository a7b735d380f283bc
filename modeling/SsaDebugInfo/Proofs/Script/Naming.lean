import SsaDebugInfo.Proofs.Ir.Naming
import SsaDebugInfo.Proofs.Script.Rules

/-!
# Names in scripts

A function tells apart the names that it is asked for, but a name that it generates may be one that
has been chosen. While no name that enters a function ends in a number that is still to come
(`Rule.behind`), the values of a function have different names.

- `Session.ReachableBy.names_differ`: names in every session that is reached so.
- `Session.generated_name_meets_chosen`: a generated name that has been chosen before.
-/

namespace SsaDebugInfo.Script.Session

open Act Store

variable {session : Session}

/-- While what enters a function is not called as a value still to come would be, and names are not
set otherwise, different values of a function have different names in every session; and a function
answers only names that it has not registered, whatever name it is asked for. -/
theorem ReachableBy.names_differ (h : ReachableBy (follows .behind) session) :
    (∀ v w f, session.store.functionOf? v = some f → session.store.functionOf? w = some f →
      v ≠ w → session.store.nameOf? (.value v) ≠ session.store.nameOf? (.value w)) ∧
    ∀ f base name t, (registerName f base).run session.store = (.ok name, t) →
      name ∉ (session.store.registry f).names := by
  have hinStep := (h.upheld behind_upholds).inStep
  refine ⟨fun v w f hv hw hne hsame => hne ?_, fun f base name t hrun => ?_⟩
  · obtain ⟨name, hseat, hname⟩ := exists_seat? hv
    obtain ⟨name', hseat', hname'⟩ := exists_seat? hw
    rw [hname, hname'] at hsame
    obtain rfl := Option.some_inj.mp hsame
    exact hinStep.distinct hseat hseat'
  · exact (registerName_new hinStep base).ok hrun

/-- The second block of one name gets another. -/
example : (runAll [] {}
    [.run (.make (.function "f" .void [] none none)) (some "f") none,
     .run (.make (.block "x" [])) (some "a") (some "f"),
     .run (.make (.block "x" [])) (some "b") (some "f")]).1.store.nameOf? (.value ⟨1⟩) =
      some "x.1" := by decide +kernel

/-- Names are taken, empty, chosen as generated ones, released and taken again. -/
def namesakes : List Command :=
  [.run (.make (.argument "x" (.int 32))) (some "a") none,
   .run (.make (.argument "x" (.int 32))) (some "b") none,
   .run (.make (.argument "" (.int 32))) (some "c") none,
   .run (.make (.function "f" .void [some "a", some "b", some "c"] none none)) (some "f") none,
   .run (.make (.block "x" [])) (some "entry") (some "f"),
   .run (.make (.instruction (.arith "add" (some "a") (some "b")) "x.3" none)) (some "sum")
     (some "entry"),
   .run (.change (.removeFromParent (some "sum"))) none none,
   .run (.make (.instruction (.arith "add" (some "a") (some "b")) "x.3" none)) (some "other")
     (some "entry"),
   .run (.change (.append (some "entry") (some "sum"))) none none]

/-- The instructions, values 4 and 5, ask for the name that the block has got, and get others. -/
theorem names_differ_namesakes :
    ReachableBy (follows .behind) (runAll [] {} namesakes).1 ∧
      (runAll [] {} namesakes).1.store.nameOf? (.value ⟨4⟩) ≠
        (runAll [] {} namesakes).1.store.nameOf? (.value ⟨5⟩) := by
  have h : ReachableBy (follows .behind) (runAll [] {} namesakes).1 :=
    reachableBy_runAll .new (by decide +kernel)
  exact ⟨h, (ReachableBy.names_differ h).1 ⟨4⟩ ⟨5⟩ ⟨0⟩ (by decide +kernel) (by decide +kernel)
    (by decide)⟩

/-- An argument has the name that the function generates for another one. -/
def chosenNames : List Command :=
  [.run (.make (.argument "a" (.int 32))) (some "first") none,
   .run (.make (.argument "a.1" (.int 32))) (some "second") none,
   .run (.make (.argument "a" (.int 32))) (some "third") none,
   .run (.make (.function "f" .void [some "first", some "second", some "third"] none none))
     (some "f") none]

/-- Everything succeeds, and two arguments, values 1 and 2, have the same name. -/
theorem generated_name_meets_chosen :
    Reachable {} (runAll [] {} chosenNames).1 ∧
      (runAll [] {} chosenNames).2.all (!·.isFailed) = true ∧
      (runAll [] {} chosenNames).1.store.functionOf? ⟨1⟩ = some ⟨0⟩ ∧
      (runAll [] {} chosenNames).1.store.functionOf? ⟨2⟩ = some ⟨0⟩ ∧
      (runAll [] {} chosenNames).1.store.nameOf? (.value ⟨1⟩) = some "a.1" ∧
      (runAll [] {} chosenNames).1.store.nameOf? (.value ⟨2⟩) = some "a.1" :=
  ⟨reachable_runAll .new (by decide +kernel), by decide +kernel, by decide +kernel,
    by decide +kernel, by decide +kernel, by decide +kernel⟩

end SsaDebugInfo.Script.Session
