import SsaDebugInfo.Proofs.Records.Relocation
import SsaDebugInfo.Proofs.Script.Migration
import SsaDebugInfo.Proofs.Script.Predecessors

/-!
# Migration is a relocation

Where lists and links agree and names are registered, migrating moves the record of a value behind
the instruction that it tracks from then on, and changes nothing else; a migration that faults has
not touched the program. Both fail if something else is out of step: a block that has entered a
second function takes a record's name from the first one, and a record cannot be placed behind
itself.

- `Reachable.migrate_relocates`: what migrating does if the value has one record.
- `Reachable.migrate_fault_unaltered`: what a migration that faults leaves.
-/

namespace SsaDebugInfo.Script.Session

open Act Store

variable {d : Discipline} {session : Session} {source target r : ValueId}

/-- Functions never register a name twice, nor an empty one. -/
theorem Reachable.proper (h : Reachable d session) : session.store.Proper :=
  (h.induction proper_initial (fun _ hproper he => hproper.kept_by_edit he)
    fun _ hproper => hproper.collect _).2

/-- Records are in step with the values that they hold if all operands handed over are values, and
also if the debug operations alone make records and change their operands. -/
theorem Reachable.record_agrees (hd : d.values = true ∨ d.records = true) (h : Reachable d session)
    (hr : session.store.isRecord r = true) : session.store.Agrees r := by
  rcases hd with hd | hd
  · exact h.useDef hd r
  · exact (h.recorded hd r hr).1

/-- While the debug operations alone make records and change their operands, and where lists and
links agree and names are registered, migrating from a value with one record, which describes a
variable with a name, succeeds: the record tracks the target, it stands right behind it if the
target is an instruction in a block, and nothing else has moved. If the record was in the function
of that block, all names are as they were. -/
theorem Reachable.migrate_relocates (hd : d.records = true) (h : Reachable d session)
    (hlists : session.store.ListsAgree) (hregistered : session.store.Registered)
    (htarget : session.store.Has (.value target)) (hsole : session.store.SoleRecord r source)
    (hname : (session.store.describedName r).isOk = true) (hne : target ≠ r) :
    ∃ t, (migrate (.ofValue source) (.ofValue target)).run session.store = (.ok (), t) ∧
      session.store.Relocated r target t ∧
      (∀ v, t.tracks r v = true ↔ v = target) ∧
      (∀ r', t.tracks r' target = true ↔ r' = r ∨ session.store.tracks r' target = true) ∧
      (target ≠ source → ∀ r', t.tracks r' source = false) ∧
      ∀ v, session.store.Has (.value v) → v ≠ source → v ≠ target →
        ∀ r', t.tracks r' v = session.store.tracks r' v := by
  have hs := h.sound.store
  have hrecorded := h.recorded hd
  have htracks : session.store.tracks r source = true := (hsole r).mpr rfl
  have hsource := has_of_tracks htracks
  obtain ⟨o, u, hfind, hsome, hfound, _⟩ := findRecord_spec hs hrecorded hsource
  obtain ⟨r', rfl⟩ := Option.isSome_iff_exists.mp (hsome.mpr ⟨r, htracks⟩)
  obtain rfl : r = r' := ((hsole r').mp (hfound r' rfl)).symm
  -- where the record ends up is told by `migrate_ends`, whom it tracks by `migrate_spec`
  have hends := migrate_ends hs h.wrapsOlder hlists hregistered h.proper
    (fun _ hr => h.record_agrees (.inr hd) hr) hsource htarget fun r u hfind' => by
      rw [hfind] at hfind'
      cases hfind'
      exact hne
  rcases hrun : (migrate (.ofValue source) (.ofValue target)).run session.store with ⟨⟨f⟩ | ⟨⟩, t⟩
  · obtain ⟨_, r', u', hfind', hnameless⟩ := hends.error hrun
    rw [hfind] at hfind'
    cases hfind'
    cases hname.symm.trans hnameless
  · obtain ⟨o, u', hfind', hmoved, hrest⟩ := migrate_spec hs hrecorded hsource hrun
    rw [hfind] at hfind'
    cases hfind'
    -- no other record changes its wrapper, and the one that moves is the only one of the source
    have hothers : ∀ r' v, r' ≠ r → session.store.Has (.value v) →
        t.tracks r' v = session.store.tracks r' v :=
      fun r' v hr' hv => hrest r' v (fun heq => hr' (Option.some_inj.mp heq).symm) hv
    obtain ⟨hgained, honly⟩ := hmoved r rfl
    refine ⟨t, rfl, hends.ok hrun r u hfind, fun v => ⟨honly v, ?_⟩, fun r' => ?_,
      fun hmoves r' => ?_, fun v hv hvsource hvtarget r' => ?_⟩
    · rintro rfl
      exact hgained
    · by_cases hr' : r' = r
      · exact iff_of_true (hr' ▸ hgained) (.inl hr')
      · rw [hothers r' target hr' htarget]
        simp [hr']
    · refine Bool.eq_false_iff.mpr fun hleft => ?_
      by_cases hr' : r' = r
      · exact hmoves (honly source (hr' ▸ hleft)).symm
      · rw [hothers r' source hr' hsource] at hleft
        exact hr' ((hsole r').mp hleft)
    · by_cases hr' : r' = r
      · subst hr'
        have hbefore : session.store.tracks r' v = false :=
          Bool.eq_false_iff.mpr fun hv => hvsource (tracks_unique hv htracks)
        rw [hbefore]
        exact Bool.eq_false_iff.mpr fun hv => hvtarget (honly v hv)
      · exact hothers r' v hr' hv

/-- Two sums of a block, the first with a record behind it, and an argument. -/
def twoSums : List Command :=
  [.run (.make (.argument "a" (.int 32))) (some "a") none,
   .run (.make (.function "f" .void [some "a"] none none)) (some "f") none,
   .run (.make (.block "b" [])) (some "b") (some "f"),
   .run (.make (.instruction (.arith "add" (some "a") (some "a")) "x" none)) (some "x") (some "b"),
   .run (.make (.instruction (.arith "add" (some "a") (some "a")) "y" none)) (some "y") (some "b"),
   .run (.metadata (.localVariable "v" none none 1 0)) (some "v") none,
   .run (.make (.bind (some "x") (some "v") none none 0 (.beside none (some "x"))))
     (some "record") none]

/-- The record, value 5, moves from the first sum, value 2, behind the second one, value 3, and
keeps its name. -/
theorem migrate_relocates_twoSums :
    Reachable { records := true } (runAll [] {} twoSums).1 ∧
      ∃ t, (migrate (.ofValue ⟨2⟩) (.ofValue ⟨3⟩)).run (runAll [] {} twoSums).1.store =
          (.ok (), t) ∧
        [.ofValue ⟨3⟩, .ofValue ⟨5⟩] <:+: t.instructionsOf ⟨1⟩ ∧
        (runAll [] {} twoSums).1.store.SameNames ⟨5⟩ t ∧
        t.tracks ⟨5⟩ ⟨3⟩ = true := by
  have h : Reachable { records := true } (runAll [] {} twoSums).1 :=
    reachable_runAll .new (by decide +kernel)
  have hstart : (runAll [] {} twoSums).1.store.ListsAgree ∧
      (runAll [] {} twoSums).1.store.Registered ∧
      (runAll [] {} twoSums).1.store.Has (.value ⟨3⟩) ∧
      (runAll [] {} twoSums).1.store.SoleRecord ⟨5⟩ ⟨2⟩ ∧
      ((runAll [] {} twoSums).1.store.describedName ⟨5⟩).isOk = true ∧
      (runAll [] {} twoSums).1.store.blockOf? ⟨3⟩ = some ⟨1⟩ ∧
      (runAll [] {} twoSums).1.store.functionOf? ⟨5⟩ =
        (runAll [] {} twoSums).1.store.functionOf? ⟨1⟩ := by
    decide +kernel
  obtain ⟨hlists, hregistered, htarget, hsole, hname, hblock, hfunction⟩ := hstart
  obtain ⟨t, hrun, hrelocated, htracks, _⟩ := Reachable.migrate_relocates rfl h hlists hregistered
    htarget hsole hname (by decide)
  refine ⟨h, t, hrun, hrelocated.beside _ hblock, hrelocated.sameNames fun b hb => ?_,
    (htracks _).mpr rfl⟩
  obtain rfl := Option.some_inj.mp (hblock.symm.trans hb)
  exact hfunction

/-- A block with two sums, the first with a record behind it, enters a second function. -/
def adoptedBlock : List Command :=
  twoSums ++ [.run (.make (.function "g" .void [] none none)) (some "g") none,
    .run (.change (.addBlock (some "g") (some "b"))) none none]

/-- The record, value 5, and the sums, values 2 and 3, are in function 0 still when the block of
which they are is in function 1. Lists and links agree, and the names of values are registered and
different. Migrating from the one sum to the other takes the name of the record from function 0. -/
theorem migrate_takes_name_along :
    Reachable { records := true } (runAll [] {} adoptedBlock).1 ∧
      (runAll [] {} adoptedBlock).1.store.ListsAgree ∧
      (runAll [] {} adoptedBlock).1.store.Registered ∧
      (∀ i < 6, ∀ j < 6, ((runAll [] {} adoptedBlock).1.store.seat? ⟨i⟩).isSome = true →
        (runAll [] {} adoptedBlock).1.store.seat? ⟨i⟩ =
          (runAll [] {} adoptedBlock).1.store.seat? ⟨j⟩ → i = j) ∧
      (runAll [] {} adoptedBlock).1.store.SoleRecord ⟨5⟩ ⟨2⟩ ∧
      (runAll [] {} adoptedBlock).1.store.functionOf? ⟨5⟩ = some ⟨0⟩ ∧
      (runAll [] {} adoptedBlock).1.store.functionOf? ⟨3⟩ = some ⟨0⟩ ∧
      ((migrate (.ofValue ⟨2⟩) (.ofValue ⟨3⟩)).run (runAll [] {} adoptedBlock).1.store).1 =
        .ok () ∧
      "UNN.1" ∈ ((runAll [] {} adoptedBlock).1.store.registry ⟨0⟩).names ∧
      "UNN.1" ∉ (((migrate (.ofValue ⟨2⟩) (.ofValue ⟨3⟩)).run
        (runAll [] {} adoptedBlock).1.store).2.registry ⟨0⟩).names :=
  ⟨reachable_runAll .new (by decide +kernel), by decide +kernel, by decide +kernel,
    by decide +kernel, by decide +kernel⟩

/-- Where lists and links agree, names are registered and records are in step with what they hold, a
migration to anything but the record itself faults only if the variable of the record has no name,
and then the program is as it was before. -/
theorem Reachable.migrate_fault_unaltered (hd : d.values = true ∨ d.records = true)
    (h : Reachable d session) (hlists : session.store.ListsAgree)
    (hregistered : session.store.Registered) (hsource : session.store.Has (.value source))
    (htarget : session.store.Has (.value target))
    (hne : ∀ r u, (findRecord (.ofValue source)).run session.store = (.ok (some r), u) →
      target ≠ r) {f : Fault} {t : Store}
    (hrun : (migrate (.ofValue source) (.ofValue target)).run session.store = (.error f, t)) :
    session.store.Unaltered t ∧
      ∃ r u, (findRecord (.ofValue source)).run session.store = (.ok (some r), u) ∧
        (session.store.describedName r).isOk = false := by
  have hs := h.sound.store
  have hends := migrate_ends hs h.wrapsOlder hlists hregistered h.proper
    (fun _ hr => h.record_agrees hd hr) hsource htarget hne
  obtain ⟨hintact, hnameless⟩ := hends.error hrun
  exact ⟨hintact.unaltered hs, hnameless⟩

/-- Two arguments, a block with a sum, and a record of the first argument without a variable. -/
def undescribed : List Command :=
  [.run (.make (.argument "a" (.int 32))) (some "a") none,
   .run (.make (.argument "b" (.int 32))) (some "b") none,
   .run (.make (.block "entry" [])) (some "entry") none,
   .run (.make (.instruction (.arith "add" (some "a") (some "b")) "sum" none)) (some "sum")
     (some "entry"),
   .run (.make (.bind (some "a") none none none 0 (.beside none (some "sum")))) (some "record")
     none]

/-- A migration of the record without a variable, value 5, from one argument to the other faults. -/
theorem migrate_fault_unaltered_undescribed :
    Reachable { values := true, records := true } (runAll [] {} undescribed).1 ∧
      ((migrate (.ofValue ⟨0⟩) (.ofValue ⟨1⟩)).run (runAll [] {} undescribed).1.store).1 =
        .error .noSuchMember ∧
      (runAll [] {} undescribed).1.store.Unaltered
        ((migrate (.ofValue ⟨0⟩) (.ofValue ⟨1⟩)).run (runAll [] {} undescribed).1.store).2 := by
  have h : Reachable { values := true, records := true } (runAll [] {} undescribed).1 :=
    reachable_runAll .new (by decide +kernel)
  have hstart : (runAll [] {} undescribed).1.store.ListsAgree ∧
      (runAll [] {} undescribed).1.store.Registered ∧
      (runAll [] {} undescribed).1.store.Has (.value ⟨0⟩) ∧
      (runAll [] {} undescribed).1.store.Has (.value ⟨1⟩) ∧
      ((findRecord (.ofValue ⟨0⟩)).run (runAll [] {} undescribed).1.store).1 =
        .ok (some ⟨5⟩) ∧
      ((migrate (.ofValue ⟨0⟩) (.ofValue ⟨1⟩)).run (runAll [] {} undescribed).1.store).1 =
        .error .noSuchMember := by
    decide +kernel
  obtain ⟨hlists, hregistered, hsource, htarget, hfind, hfault⟩ := hstart
  have hne : ∀ r u, (findRecord (.ofValue ⟨0⟩)).run (runAll [] {} undescribed).1.store =
      (.ok (some r), u) → (⟨1⟩ : ValueId) ≠ r := by
    intro r u hfound
    rw [hfound] at hfind
    cases hfind
    decide
  exact ⟨h, hfault, (Reachable.migrate_fault_unaltered (.inl rfl) h hlists hregistered hsource
    htarget hne (run_eq_error hfault)).1⟩

/-- A block with a sum and, behind it, the record of an argument. -/
def describedArgument : List Command :=
  [.run (.make (.argument "a" (.int 32))) (some "a") none,
   .run (.make (.block "entry" [])) (some "entry") none,
   .run (.make (.instruction (.arith "add" (some "a") (some "a")) "sum" none)) (some "sum")
     (some "entry"),
   .run (.metadata (.localVariable "v" none none 1 0)) (some "v") none,
   .run (.make (.bind (some "a") (some "v") none none 0 (.beside none (some "sum"))))
     (some "record") none]

/-- A migration from the argument to its record, value 4, faults after the record has been bound to
itself and taken out of its block: it cannot be placed behind itself. -/
theorem migrate_to_record_leaves_block :
    Reachable { values := true, records := true } (runAll [] {} describedArgument).1 ∧
      (runAll [] {} describedArgument).1.store.ListsAgree ∧
      (runAll [] {} describedArgument).1.store.Registered ∧
      (runAll [] {} describedArgument).1.store.SoleRecord ⟨4⟩ ⟨0⟩ ∧
      ((migrate (.ofValue ⟨0⟩) (.ofValue ⟨4⟩)).run
        (runAll [] {} describedArgument).1.store).1 = .error .unmetRequirement ∧
      (runAll [] {} describedArgument).1.store.instructionsOf ⟨1⟩ =
        [.ofValue ⟨2⟩, .ofValue ⟨4⟩] ∧
      ((migrate (.ofValue ⟨0⟩) (.ofValue ⟨4⟩)).run
        (runAll [] {} describedArgument).1.store).2.instructionsOf ⟨1⟩ = [.ofValue ⟨2⟩] ∧
      ((migrate (.ofValue ⟨0⟩) (.ofValue ⟨4⟩)).run
        (runAll [] {} describedArgument).1.store).2.tracks ⟨4⟩ ⟨4⟩ = true :=
  ⟨reachable_runAll .new (by decide +kernel), by decide +kernel⟩

end SsaDebugInfo.Script.Session
