import SsaDebugInfo.Proofs.Records.Stranded
import SsaDebugInfo.Proofs.Script.Touches
import SsaDebugInfo.Proofs.Script.Session

/-!
# Bindings that fault in a session

When a command starts, labels and unfinished commands keep alive all that is there. If the command
binds a value and faults, its end takes away what the binding has made, but not a record that the
wrapper of the value knows: if the wrapper was there before, the record stays, stands nowhere, and
tracks the value.

- `Ready`, `Ready.settled`: sessions in which a command may start.
- `Ready.bind_fault_leaves`: what a binding that faults leaves.
-/

namespace SsaDebugInfo

open Act Store

namespace Store

/-- What can be kept alive in the one store can in the other. -/
def StaysSettled (s t : Store) : Prop :=
  ∀ roots, s.Settled roots → t.Settled roots

instance : IsPreorder Store StaysSettled where
  refl _ _ h := h
  trans _ _ _ hst htu roots h := htu roots (hst roots h)

end Store

/-- Attaching notes takes nothing from an engine. -/
theorem staysSettled_pushNotes (engine : EngineId) (notes : List Slot) :
    (pushNotes engine notes).Only StaysSettled := by
  refine (only_fetch _).bind fun e => ?_
  split
  · exact only_throw _
  · refine only_update fun s roots hs ref href => ?_
    have hmore : s.HoldsMore (fun _ => True) (s.modify engine (·.mapNotes (· ++ notes))) := by
      refine (HoldsMore.refl s).modify fun _ o _ => ⟨?_, fun _ _ => .inr trivial⟩
      cases o <;> simp [Kind.slots, Engine.slots, Engine.mapNotes]
    exact hmore.live (hs ref (has_modify.mp href))

namespace Script.Session

variable {d : Discipline} {session : Session} {watch : List Label}

/-! ## Sessions in which a command may start -/

/-- A command may start in a new session, when another command has ended, and when notes have been
attached for the commands within a command. -/
inductive Ready (d : Discipline) : Session → Prop
  | new : Ready d {}
  | settle {session : Session} (watch : List Label)
      (step : List Entry → List (Label × Snapshot) → Step) :
      Reachable d session → Ready d (session.settle watch step).1
  | openNotes {session : Session} (engine : Given) (notes : List Given) :
      Ready d session → Ready d (session.openNotes engine notes).2

theorem Ready.reachable (h : Ready d session) : Reachable d session := by
  induction h with
  | new => exact .new
  | settle watch step hsession => exact hsession.settle watch step
  | openNotes engine notes _ ih => exact ih.openNotes engine notes

theorem roots_openNotes (engine : Given) (notes : List Given) :
    session.roots ⊆ (session.openNotes engine notes).2.roots := by
  unfold openNotes
  dsimp only
  split
  · next heq =>
    obtain ⟨_, rfl⟩ := Prod.mk.inj heq
    exact List.Subset.refl _
  · next heq =>
    obtain ⟨_, rfl⟩ := Prod.mk.inj heq
    exact ((List.sublist_append_right _ _).append_left _).subset

/-- Where a command may start, nothing is left to collect. -/
theorem Ready.settled (h : Ready d session) : session.store.Settled session.roots := by
  induction h with
  | new => exact settled_initial
  | settle watch step _ => exact settled_collect
  | @openNotes session engine notes _ ih =>
    have hstays : session.store.StaysSettled (session.openNotes engine notes).2.store :=
      only_openNotes staysSettled_pushNotes engine notes
    exact (hstays _ ih).mono (roots_openNotes engine notes)

theorem ready_settleResult {result : Except Fault Answer × Session} (h : Reachable d result.2) :
    Ready d (settleResult watch result).1 := by
  obtain ⟨_ | _, _⟩ := result
  · exact .settle watch _ h
  · exact .settle watch _ h

/-- The next command may start when a command has ended. -/
theorem ready_step (h : Reachable d session) {command : Command}
    (hadmits : session.admits d watch command = true) :
    Ready d (session.step watch command).1 := by
  cases command with
  | run operation bindTo into =>
    unfold admits at hadmits
    unfold step
    exact ready_settleResult (h.run bindTo into hadmits)
  | drop label =>
    unfold step
    exact ready_settleResult (h.drop label)
  | unknown name =>
    unfold step
    exact .settle watch _ h
  | withNotes engine notes body =>
    have hopened := h.openNotes engine notes
    unfold admits at hadmits
    unfold step
    split
    · next heq =>
      rw [heq] at hopened
      exact .settle watch _ hopened
    · next id count next heq =>
      rw [heq] at hopened hadmits
      exact .settle watch _ ((reachable_runUntilFault hopened body hadmits).closeNotes id count _)

/-- So it may when a script has ended. -/
theorem ready_runAll (h : Ready d session) {commands : List Command}
    (hadmits : session.admitsAll d watch commands = true) :
    Ready d (session.runAll watch commands).1 := by
  induction commands generalizing session with
  | nil => exact h
  | cons command rest ih =>
    unfold admitsAll at hadmits
    obtain ⟨hfirst, hrest⟩ := Bool.and_eq_true_iff.mp hadmits
    exact ih (ready_step h.reachable hfirst) hrest

/-- The roots of a session hold what is there. -/
theorem Sound.roots (h : session.Sound) : ∀ slot ∈ session.roots, session.store.HasIn slot := by
  refine List.forall_mem_append.mpr ⟨fun slot hslot => ?_, h.pinned⟩
  obtain ⟨entry, hentry, rfl⟩ := List.mem_map.mp hslot
  exact h.labels entry hentry

/-! ## Bindings that fault -/

/-- When a command that was to bind a value has faulted and ended, contexts know and blocks list
what they did, the same records track the same values, and the finder may yield the same for the
value: but for one record that has come, if an anchor was given and no other, and the value had a
wrapper. It tracks the value, and the finder may yield it. -/
theorem Ready.bind_fault_leaves (h : Ready d session) {v : ValueId} {binding : Binding}
    {loc before after : Slot} {f : Fault} {t : Store} (hv : session.store.Has (.value v))
    (hvar : session.store.HasIn binding.var)
    (hexpression : session.store.HasIn binding.expression) (hloc : session.store.HasIn loc)
    (hrun : (bindValue (.ofValue v) binding loc before after).run session.store = (.error f, t)) :
    ∃ r, session.store.LeavesRecord
      (before.isNone ≠ after.isNone ∧ (session.store.wrapperFor? v).isSome = true) r v
      ({ session with store := t } : Session).settledStore := by
  obtain ⟨r, hleaves⟩ := (bindValue_leavesRecord h.reachable.sound.store h.settled
    h.reachable.sound.roots hv hvar hexpression hloc before after).error hrun
  exact ⟨r, hleaves.new, hleaves.handlesIn, hleaves.wrappersIn, hleaves.instructionsOf,
    hleaves.tracks, hleaves.mayFind⟩

/-- A block with a sum, behind which one of two arguments has been bound, and a sum in no block. -/
def anchors : List Command :=
  [.run (.make (.argument "a" (.int 32))) (some "a") none,
   .run (.make (.argument "b" (.int 32))) (some "b") none,
   .run (.make (.block "entry" [])) (some "entry") none,
   .run (.make (.instruction (.arith "add" (some "a") (some "b")) "sum" none)) (some "sum")
     (some "entry"),
   .run (.metadata (.localVariable "x" none none 1 0)) (some "x") none,
   .run (.make (.bind (some "a") (some "x") none none 0 (.beside none (some "sum")))) (some "d")
     none,
   .run (.make (.instruction (.arith "add" (some "a") (some "b")) "y" none)) (some "y") none]

/-- What is left when an argument has been bound behind the sum in no block. -/
def misplaced (v : ValueId) : Session :=
  { (runAll [] {} anchors).1 with
    store := ((bindValue (.ofValue v) ⟨.ofNode ⟨0⟩, none, 0⟩ none none (.ofValue ⟨6⟩)).run
      (runAll [] {} anchors).1.store).2 }

/-- Binding the first argument, value 0, leaves a record that tracks it and may be found for it.
Binding the second one, value 1, leaves every record what it tracks, and no other. -/
theorem bind_fault_leaves_anchors :
    Ready {} (runAll [] {} anchors).1 ∧
      (∃ r, ¬ (runAll [] {} anchors).1.store.Has (.value r) ∧
        (misplaced ⟨0⟩).settledStore.tracks r ⟨0⟩ = true ∧
        (misplaced ⟨0⟩).settledStore.MayFind ⟨0⟩ r) ∧
      ∀ r x, (misplaced ⟨1⟩).settledStore.tracks r x =
        (runAll [] {} anchors).1.store.tracks r x := by
  have h : Ready {} (runAll [] {} anchors).1 := ready_runAll .new (by decide +kernel)
  have hfaults : ∀ v ∈ [(⟨0⟩ : ValueId), ⟨1⟩],
      ((bindValue (.ofValue v) ⟨.ofNode ⟨0⟩, none, 0⟩ none none (.ofValue ⟨6⟩)).run
        (runAll [] {} anchors).1.store).1 = .error .unmetRequirement := by decide +kernel
  have hvar : (runAll [] {} anchors).1.store.HasIn (.ofNode ⟨0⟩) :=
    hasIn_some.mpr (by decide +kernel)
  have hwrappers : ((runAll [] {} anchors).1.store.wrapperFor? ⟨0⟩).isSome = true ∧
      ((runAll [] {} anchors).1.store.wrapperFor? ⟨1⟩).isSome = false := by decide +kernel
  refine ⟨h, ?_, fun r x => ?_⟩
  · obtain ⟨r, hleaves⟩ := Ready.bind_fault_leaves h (by decide +kernel) hvar hasIn_none hasIn_none
      (run_eq_error (hfaults ⟨0⟩ (by decide)))
    have hleft := And.intro (show Option.isNone (none : Slot) ≠ Option.isNone (Slot.ofValue ⟨6⟩) by
      decide) hwrappers.1
    exact ⟨r, hleaves.new, (hleaves.tracks r ⟨0⟩).mpr (.inr ⟨hleft, rfl, rfl⟩),
      (hleaves.mayFind r).mpr (.inr ⟨hleft, rfl⟩)⟩
  · obtain ⟨_, hleaves⟩ := Ready.bind_fault_leaves h (by decide +kernel) hvar hasIn_none hasIn_none
      (run_eq_error (hfaults ⟨1⟩ (by decide)))
    refine Bool.eq_iff_iff.mpr ((hleaves.tracks r x).trans (or_iff_left ?_))
    rintro ⟨⟨_, hsome⟩, _⟩
    cases hwrappers.2.symm.trans hsome

/-- Value 7, a record that has not been there before, is left for the first argument. -/
theorem bind_fault_leaves_record :
    Ready {} (runAll [] {} anchors).1 ∧
      ((bindValue (.ofValue ⟨0⟩) ⟨.ofNode ⟨0⟩, none, 0⟩ none none (.ofValue ⟨6⟩)).run
        (runAll [] {} anchors).1.store).1 = .error .unmetRequirement ∧
      (runAll [] {} anchors).1.store.blockOf? ⟨6⟩ = none ∧
      (runAll [] {} anchors).1.store.tracks ⟨7⟩ ⟨0⟩ = false ∧
      (misplaced ⟨0⟩).settledStore.tracks ⟨7⟩ ⟨0⟩ = true ∧
      ¬ (runAll [] {} anchors).1.store.MayFind ⟨0⟩ ⟨7⟩ ∧
      (misplaced ⟨0⟩).settledStore.MayFind ⟨0⟩ ⟨7⟩ := by
  refine ⟨ready_runAll .new (by decide +kernel), by decide +kernel, by decide +kernel,
    by decide +kernel, by decide +kernel, ?_, ?_⟩
  · rintro ⟨_, _, _, hrecord⟩
    have hnone : (runAll [] {} anchors).1.store.isRecord ⟨7⟩ = false := by decide +kernel
    cases hnone.symm.trans hrecord
  · exact ⟨⟨4⟩, by decide +kernel, by decide +kernel, by decide +kernel⟩

end Script.Session

end SsaDebugInfo
