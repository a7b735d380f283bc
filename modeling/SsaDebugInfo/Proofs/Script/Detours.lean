import SsaDebugInfo.Proofs.Script.Commuting

/-!
# Migrations by way of another instruction

A value that is replaced several times passes its record on each time. Where the record ends does
not depend on the way: it is taken out of the place that it had in between, and what it tracked
there it tracks no longer. This needs that the instructions on the way stand in blocks of the
function that the record is in: a record that is put in its place enters the function of the block,
and one that has never left its place stays in its own.

- `Migrated.again`: two migrations of a record, one after the other, are the last one.
- `Migrated.sameOutcome`: a migration says what the program is then.
- `Reachable.migrate_by_way`: in reachable sessions a detour leads where the direct way leads.
-/

namespace SsaDebugInfo

open Act Store

variable {s t u t' : Store} {r source via target : ValueId}

namespace Store

/-- A record that has been migrated twice is where it would be had it been migrated to the last
target at once. -/
theorem Migrated.again (ht : s.Migrated r via t) (ht' : t.Migrated r target t') :
    s.Migrated r target t' where
  has hv := ht'.has (ht.has hv)
  instructionsOf b := by
    -- what has been put behind the first target goes with the filter, and nothing else does
    rw [ht'.instructionsOf, ht.instructionsOf, filter_putAfter (by simp), List.filter_filter]
    simp only [Bool.and_self]
  blockOf? hv hb := ht'.blockOf? hv (ht.blockOf? hv hb)
  functionOf? hv := (ht'.functionOf? (ht.has hv)).trans (ht.functionOf? hv)
  nameOf? hv := (ht'.nameOf? (ht.has hv)).trans (ht.nameOf? hv)
  names f := (ht'.names f).trans (ht.names f)
  nextName f := (ht'.nextName f).trans (ht.nextName f)
  tracks r' v := by
    rw [ht'.tracks]
    split
    · rfl
    · next hr' => rw [ht.tracks, if_neg hr']
  described hname := ht'.described (ht.described hname)

/-- Two stores that a record has been migrated to the same target in are the same program. -/
theorem Migrated.sameOutcome (ht : s.Migrated r target t) (hu : s.Migrated r target u) :
    s.SameOutcome t u where
  instructionsOf b := by rw [ht.instructionsOf, hu.instructionsOf]
  tracks r' v := by rw [Bool.eq_iff_iff, ht.tracks, hu.tracks]
  functionOf? hv := by rw [ht.functionOf? hv, hu.functionOf? hv]
  nameOf? hv := by rw [ht.nameOf? hv, hu.nameOf? hv]
  names f := (ht.names f).trans (hu.names f).symm
  nextName f := by rw [ht.nextName, hu.nextName]

/-- After a migration to an instruction that no record tracked, the record can be migrated from
there to where it could be migrated before. -/
theorem CanMigrate.onward (h : s.CanMigrate source r target) (hs : s.InOrder)
    (ht : s.Migrated r via t) (hfree : s.Untracked via) :
    t.CanMigrate via r target where
  sole r' := by
    rw [ht.tracks]
    split
    · next hr' => exact iff_of_true rfl hr'
    · next hr' => exact iff_of_false (by simp [hfree r']) hr'
  described := ht.described h.described
  apart := h.apart
  placed := ht.placed hs h h.apart

end Store

namespace Script.Session

variable {d : Discipline} {session : Session}

/-- While the debug operations alone make records and change their operands, and where lists and
links agree and names are registered, the record of a value with one record can be migrated by way
of an instruction that no record tracks: both migrations succeed, the program is as after the one
migration to the last target, which the record tracks and stands right behind, and no record tracks
the instruction on the way. -/
theorem Reachable.migrate_by_way (hd : d.records = true) (h : Reachable d session)
    (hlists : session.store.ListsAgree) (hregistered : session.store.Registered)
    (hvia : session.store.CanMigrate source r via)
    (hcan : session.store.CanMigrate source r target) (hapart : via ≠ target)
    (hfree : session.store.Untracked via) :
    ∃ t u, (migrateInTurn source via via target).run session.store = (.ok (), t) ∧
      (migrate (.ofValue source) (.ofValue target)).run session.store = (.ok (), u) ∧
      session.store.SameOutcome t u ∧
      t.Untracked via ∧
      (∀ v, t.tracks r v = true ↔ v = target) ∧
      ∀ b, session.store.blockOf? target = some b →
        [.ofValue target, .ofValue r] <:+: t.instructionsOf b := by
  have hs := h.inOrder hd hlists hregistered
  obtain ⟨t, hrun, ht, hst⟩ := hs.migrates hvia
  obtain ⟨t', hrun', _, htt'⟩ := ht.migrates (hcan.onward hs hst hfree)
  obtain ⟨u, hdirect, _, hsu⟩ := hs.migrates hcan
  have hmigrated := hst.again htt'
  refine ⟨t', u, ?_, hdirect, hmigrated.sameOutcome hsu, fun r' => ?_,
    fun v => hmigrated.tracks_record, fun b hb => hmigrated.beside hlists hcan.apart hb⟩
  · rw [migrateInTurn, run_bind, hrun]
    exact hrun'
  · refine Bool.eq_false_iff.mpr fun htracked => ?_
    rw [hmigrated.tracks] at htracked
    split at htracked
    · exact hapart htracked
    · cases (hfree r').symm.trans htracked

/-- Two sums of a block, and right behind the second one the record of an argument. -/
def describedBehind : List Command :=
  [.run (.make (.argument "a" (.int 32))) (some "a") none,
   .run (.make (.function "f" .void [some "a"] none none)) (some "f") none,
   .run (.make (.block "l" [])) (some "l") (some "f"),
   .run (.make (.instruction (.arith "add" (some "a") (some "a")) "b" none)) (some "b") (some "l"),
   .run (.make (.instruction (.arith "add" (some "a") (some "a")) "c" none)) (some "c") (some "l"),
   .run (.metadata (.localVariable "v" none none 1 0)) (some "v") none,
   .run (.make (.bind (some "a") (some "v") none none 0 (.beside none (some "c")))) (some "d") none]

/-- The record, value 5, stands behind the second sum, value 3, from the beginning. By way of the
first sum, value 2, it is taken out and comes back to where it was. -/
theorem migrate_by_way_describedBehind :
    Reachable { records := true } (runAll [] {} describedBehind).1 ∧
      (runAll [] {} describedBehind).1.store.instructionsOf ⟨1⟩ =
        [.ofValue ⟨2⟩, .ofValue ⟨3⟩, .ofValue ⟨5⟩] ∧
      ∃ t u, (migrateInTurn ⟨0⟩ ⟨2⟩ ⟨2⟩ ⟨3⟩).run (runAll [] {} describedBehind).1.store =
          (.ok (), t) ∧
        (migrate (.ofValue ⟨0⟩) (.ofValue ⟨3⟩)).run (runAll [] {} describedBehind).1.store =
          (.ok (), u) ∧
        t.instructionsOf ⟨1⟩ = u.instructionsOf ⟨1⟩ ∧ t.tracks ⟨5⟩ ⟨2⟩ = false ∧
        t.tracks ⟨5⟩ ⟨3⟩ = true ∧ [.ofValue ⟨3⟩, .ofValue ⟨5⟩] <:+: t.instructionsOf ⟨1⟩ := by
  have h : Reachable { records := true } (runAll [] {} describedBehind).1 :=
    reachable_runAll .new (by decide +kernel)
  have hstart : (runAll [] {} describedBehind).1.store.ListsAgree ∧
      (runAll [] {} describedBehind).1.store.Registered ∧
      (runAll [] {} describedBehind).1.store.instructionsOf ⟨1⟩ =
        [.ofValue ⟨2⟩, .ofValue ⟨3⟩, .ofValue ⟨5⟩] ∧
      (runAll [] {} describedBehind).1.store.Untracked ⟨2⟩ ∧
      (runAll [] {} describedBehind).1.store.SoleRecord ⟨5⟩ ⟨0⟩ ∧
      ((runAll [] {} describedBehind).1.store.describedName ⟨5⟩).isOk = true ∧
      (runAll [] {} describedBehind).1.store.blockOf? ⟨2⟩ = some ⟨1⟩ ∧
      (runAll [] {} describedBehind).1.store.blockOf? ⟨3⟩ = some ⟨1⟩ ∧
      (runAll [] {} describedBehind).1.store.functionOf? ⟨5⟩ =
        (runAll [] {} describedBehind).1.store.functionOf? ⟨1⟩ := by
    decide +kernel
  obtain ⟨hlists, hregistered, hlist, hfree, hsole, hname, hvia, htarget, hsame⟩ := hstart
  obtain ⟨t, u, ht, hu, hsameOutcome, hleft, htracks, hbeside⟩ :=
    Reachable.migrate_by_way rfl h hlists hregistered
      ⟨hsole, hname, by decide, _, hvia, hsame⟩ ⟨hsole, hname, by decide, _, htarget, hsame⟩
      (by decide) hfree
  exact ⟨h, hlist, t, u, ht, hu, hsameOutcome.instructionsOf _, hleft _, (htracks _).mpr rfl,
    hbeside _ htarget⟩

/-- The block with these sums and the record enters a second function. -/
def adoptedBehind : List Command :=
  describedBehind ++ [.run (.make (.function "g" .void [] none none)) (some "g") none,
    .run (.change (.addBlock (some "g") (some "l"))) none none]

/-- The sums, values 2 and 3, and the record, value 5, are in function 0 still when their block is
in function 1. Lists and links agree, and the names of values are registered and different. The
direct way leaves the record where it stands, and function 0 has its name; the detour takes it to
function 1. -/
theorem migrate_by_way_shows :
    Reachable { records := true } (runAll [] {} adoptedBehind).1 ∧
      (runAll [] {} adoptedBehind).1.store.ListsAgree ∧
      (runAll [] {} adoptedBehind).1.store.Registered ∧
      (∀ i < 6, ∀ j < 6, ((runAll [] {} adoptedBehind).1.store.seat? ⟨i⟩).isSome = true →
        (runAll [] {} adoptedBehind).1.store.seat? ⟨i⟩ =
          (runAll [] {} adoptedBehind).1.store.seat? ⟨j⟩ → i = j) ∧
      (runAll [] {} adoptedBehind).1.store.SoleRecord ⟨5⟩ ⟨0⟩ ∧
      ((runAll [] {} adoptedBehind).1.store.describedName ⟨5⟩).isOk = true ∧
      (runAll [] {} adoptedBehind).1.store.Untracked ⟨2⟩ ∧
      (∀ i ∈ [2, 3, 5], (runAll [] {} adoptedBehind).1.store.blockOf? ⟨i⟩ = some ⟨1⟩ ∧
        (runAll [] {} adoptedBehind).1.store.functionOf? ⟨i⟩ = some ⟨0⟩) ∧
      ((migrateInTurn ⟨0⟩ ⟨2⟩ ⟨2⟩ ⟨3⟩).run (runAll [] {} adoptedBehind).1.store).1 = .ok () ∧
      "UNN.1" ∉ (((migrateInTurn ⟨0⟩ ⟨2⟩ ⟨2⟩ ⟨3⟩).run
        (runAll [] {} adoptedBehind).1.store).2.registry ⟨0⟩).names ∧
      ((migrate (.ofValue ⟨0⟩) (.ofValue ⟨3⟩)).run
        (runAll [] {} adoptedBehind).1.store).1 = .ok () ∧
      "UNN.1" ∈ (((migrate (.ofValue ⟨0⟩) (.ofValue ⟨3⟩)).run
        (runAll [] {} adoptedBehind).1.store).2.registry ⟨0⟩).names := by
  have hstart : (runAll [] {} adoptedBehind).1.store.ListsAgree ∧
      (runAll [] {} adoptedBehind).1.store.Registered ∧
      (runAll [] {} adoptedBehind).1.store.SoleRecord ⟨5⟩ ⟨0⟩ ∧
      ((runAll [] {} adoptedBehind).1.store.describedName ⟨5⟩).isOk = true ∧
      (runAll [] {} adoptedBehind).1.store.Untracked ⟨2⟩ ∧
      ∀ i ∈ [2, 3, 5], (runAll [] {} adoptedBehind).1.store.blockOf? ⟨i⟩ = some ⟨1⟩ ∧
        (runAll [] {} adoptedBehind).1.store.functionOf? ⟨i⟩ = some ⟨0⟩ := by
    decide +kernel
  have hends : ((migrateInTurn ⟨0⟩ ⟨2⟩ ⟨2⟩ ⟨3⟩).run
        (runAll [] {} adoptedBehind).1.store).1 = .ok () ∧
      "UNN.1" ∉ (((migrateInTurn ⟨0⟩ ⟨2⟩ ⟨2⟩ ⟨3⟩).run
        (runAll [] {} adoptedBehind).1.store).2.registry ⟨0⟩).names ∧
      ((migrate (.ofValue ⟨0⟩) (.ofValue ⟨3⟩)).run
        (runAll [] {} adoptedBehind).1.store).1 = .ok () ∧
      "UNN.1" ∈ (((migrate (.ofValue ⟨0⟩) (.ofValue ⟨3⟩)).run
        (runAll [] {} adoptedBehind).1.store).2.registry ⟨0⟩).names := by
    decide +kernel
  obtain ⟨hlists, hregistered, hsole, hname, hfree, hplaced⟩ := hstart
  exact ⟨reachable_runAll .new (by decide +kernel), hlists, hregistered, by decide +kernel,
    hsole, hname, hfree, hplaced, hends⟩

end Script.Session
end SsaDebugInfo
