import SsaDebugInfo.Proofs.Script.InOrder

/-!
# Migrations that commute

Two migrations of different records to different targets lead to the same program whichever comes
first, as long as neither target is the source or the record of the other migration: each record is
put right behind its own target, and no record keeps the other one from its place. This needs that
targets stand in blocks of the functions that the records are in: a record that is put in its place
enters the function of the block, and one that is there already stays in its own.

- `SameOutcome`: what two ways lead to is the same program.
- `Migrated.comm`: it is, for two migrations in either order.
- `Reachable.migrations_commute`: the same for reachable sessions.
-/

namespace SsaDebugInfo

open Act Store

variable {s t u t' u' : Store} {r target source r' target' source' : ValueId}

namespace Store

/-- Two stores have come from one and are the same program, whatever handles and wrappers there are
besides: they have the same lists, their records track the same values, and what was there is in the
same functions under the same names. -/
structure SameOutcome (s t u : Store) : Prop where
  instructionsOf : ∀ b, t.instructionsOf b = u.instructionsOf b
  tracks : ∀ r v, t.tracks r v = u.tracks r v
  functionOf? : ∀ {v}, s.Has (.value v) → t.functionOf? v = u.functionOf? v
  nameOf? : ∀ {v}, s.Has (.value v) → t.nameOf? (.value v) = u.nameOf? (.value v)
  names : ∀ f, (t.registry f).names.Perm (u.registry f).names
  nextName : ∀ f, (t.registry f).nextName = (u.registry f).nextName

/-- Two records that are put behind different targets stand in the same lists whichever is put there
first. -/
theorem Migrated.instructionsOf_comm (ht : s.Migrated r target t) (ht' : t.Migrated r' target' t')
    (hu : s.Migrated r' target' u) (hu' : u.Migrated r target u') (hr : r' ≠ r)
    (htargets : target ≠ target') (hother : target ≠ r') (hother' : target' ≠ r) (b : ValueId) :
    t'.instructionsOf b = u'.instructionsOf b := by
  have hslots : ∀ v w : ValueId, v ≠ w → Slot.ofValue v ≠ .ofValue w := fun v w hvw => by
    simpa using hvw
  rw [ht'.instructionsOf, ht.instructionsOf, hu'.instructionsOf, hu.instructionsOf]
  exact putAfter_filter_comm (hslots _ _ htargets) (hslots _ _ hother) (hslots _ _ hother')
    (hslots _ _ hr.symm) _

/-- Two migrations of different records to different targets lead to the same program whichever
comes first. -/
theorem Migrated.comm (ht : s.Migrated r target t) (ht' : t.Migrated r' target' t')
    (hu : s.Migrated r' target' u) (hu' : u.Migrated r target u') (hr : r' ≠ r)
    (htargets : target ≠ target') (hother : target ≠ r') (hother' : target' ≠ r) :
    s.SameOutcome t' u' where
  instructionsOf := ht.instructionsOf_comm ht' hu hu' hr htargets hother hother'
  tracks x v := by
    rw [Bool.eq_iff_iff, ht'.tracks, ht.tracks, hu'.tracks, hu.tracks]
    by_cases hx : x = r
    · rw [if_neg (hx ▸ hr.symm), if_pos hx, if_pos hx]
    · rw [if_neg hx, if_neg hx]
  functionOf? hv := by
    rw [ht'.functionOf? (ht.has hv), ht.functionOf? hv, hu'.functionOf? (hu.has hv),
      hu.functionOf? hv]
  nameOf? hv := by
    rw [ht'.nameOf? (ht.has hv), ht.nameOf? hv, hu'.nameOf? (hu.has hv), hu.nameOf? hv]
  names f := ((ht'.names f).trans (ht.names f)).trans ((hu'.names f).trans (hu.names f)).symm
  nextName f := by rw [ht'.nextName, ht.nextName, hu'.nextName, hu.nextName]

end Store

namespace Script.Session

variable {d : Discipline} {session : Session}

/-- Two migrations, one after the other. -/
def migrateInTurn (source target source' target' : ValueId) : Act Unit := do
  migrate (.ofValue source) (.ofValue target)
  migrate (.ofValue source') (.ofValue target')

/-- While the debug operations alone make records and change their operands, and where lists and
links agree and names are registered, two migrations lead to the same program in either order: from
different values with one record each, to different instructions in blocks of the functions that
these records are in, neither of them a record or the source of the other migration. In it each of
the two records tracks its target and stands right behind it. -/
theorem Reachable.migrations_commute (hd : d.records = true) (h : Reachable d session)
    (hlists : session.store.ListsAgree) (hregistered : session.store.Registered)
    (hcan : session.store.CanMigrate source r target)
    (hcan' : session.store.CanMigrate source' r' target') (hsources : source ≠ source')
    (htargets : target ≠ target') (hrecord : target ≠ r') (hrecord' : target' ≠ r)
    (hsource : target ≠ source') (hsource' : target' ≠ source) :
    ∃ t u, (migrateInTurn source target source' target').run session.store = (.ok (), t) ∧
      (migrateInTurn source' target' source target).run session.store = (.ok (), u) ∧
      session.store.SameOutcome t u ∧
      (∀ v, (t.tracks r v = true ↔ v = target) ∧ (t.tracks r' v = true ↔ v = target')) ∧
      ∀ b, (session.store.blockOf? target = some b →
          [.ofValue target, .ofValue r] <:+: t.instructionsOf b) ∧
        (session.store.blockOf? target' = some b →
          [.ofValue target', .ofValue r'] <:+: t.instructionsOf b) := by
  have hs := h.inOrder hd hlists hregistered
  have hr : r' ≠ r := by
    rintro rfl
    exact hsources (tracks_unique ((hcan.sole r').mpr rfl) ((hcan'.sole r').mpr rfl))
  obtain ⟨t, hrun, ht, hst⟩ := hs.migrates hcan
  obtain ⟨t', hrun', _, htt'⟩ := ht.migrates (hcan'.after hs hst hr hsource hrecord')
  obtain ⟨u, hother, hu, hsu⟩ := hs.migrates hcan'
  obtain ⟨u', hother', _, huu'⟩ := hu.migrates (hcan.after hs hsu hr.symm hsource' hrecord)
  have hsame := hst.comm htt' hsu huu' hr htargets hrecord hrecord'
  -- what the last migration has done is seen at once, and in either order one of them is the last
  refine ⟨t', u', ?_, ?_, hsame, fun v => ⟨?_, htt'.tracks_record⟩, fun b => ⟨fun hb => ?_,
    fun hb => ?_⟩⟩
  · rw [migrateInTurn, run_bind, hrun]
    exact hrun'
  · rw [migrateInTurn, run_bind, hother]
    exact hother'
  · rw [hsame.tracks]
    exact huu'.tracks_record
  · rw [hsame.instructionsOf]
    exact huu'.beside hu.listsAgree hcan.apart (hsu.blockOf? hrecord hb)
  · exact htt'.beside ht.listsAgree hcan'.apart (hst.blockOf? hrecord' hb)

/-- Two sums of a block, and right behind the first one a record of the second argument and then one
of the first argument. -/
def describedArguments : List Command :=
  [.run (.make (.argument "a" (.int 32))) (some "a") none,
   .run (.make (.argument "c" (.int 32))) (some "c") none,
   .run (.make (.function "f" .void [some "a", some "c"] none none)) (some "f") none,
   .run (.make (.block "l" [])) (some "l") (some "f"),
   .run (.make (.instruction (.arith "add" (some "a") (some "c")) "b" none)) (some "b") (some "l"),
   .run (.make (.instruction (.arith "add" (some "a") (some "c")) "e" none)) (some "e") (some "l"),
   .run (.metadata (.localVariable "v" none none 1 0)) (some "v") none,
   .run (.make (.bind (some "a") (some "v") none none 0 (.beside none (some "b")))) (some "d") none,
   .run (.make (.bind (some "c") (some "v") none none 0 (.beside none (some "b")))) (some "h") none]

/-- The record of `a`, value 6, is to go behind `b`, value 3, but the record of `c`, value 8, stands
in between. If that one goes behind `e`, value 4, before, the other one is where it should be; else
it is taken out and put in its place. What this leads to is the same. -/
theorem migrations_commute_describedArguments :
    Reachable { records := true } (runAll [] {} describedArguments).1 ∧
      (runAll [] {} describedArguments).1.store.instructionsOf ⟨2⟩ =
        [.ofValue ⟨3⟩, .ofValue ⟨8⟩, .ofValue ⟨6⟩, .ofValue ⟨4⟩] ∧
      ∃ t u, (migrateInTurn ⟨0⟩ ⟨3⟩ ⟨1⟩ ⟨4⟩).run (runAll [] {} describedArguments).1.store =
          (.ok (), t) ∧
        (migrateInTurn ⟨1⟩ ⟨4⟩ ⟨0⟩ ⟨3⟩).run (runAll [] {} describedArguments).1.store =
          (.ok (), u) ∧
        t.instructionsOf ⟨2⟩ = u.instructionsOf ⟨2⟩ ∧ t.tracks ⟨6⟩ ⟨3⟩ = true ∧
        [.ofValue ⟨3⟩, .ofValue ⟨6⟩] <:+: t.instructionsOf ⟨2⟩ ∧
        [.ofValue ⟨4⟩, .ofValue ⟨8⟩] <:+: t.instructionsOf ⟨2⟩ := by
  have hstart : admitsAll { records := true } [] {} describedArguments = true ∧
      (runAll [] {} describedArguments).1.store.ListsAgree ∧
      (runAll [] {} describedArguments).1.store.Registered ∧
      (runAll [] {} describedArguments).1.store.instructionsOf ⟨2⟩ =
        [.ofValue ⟨3⟩, .ofValue ⟨8⟩, .ofValue ⟨6⟩, .ofValue ⟨4⟩] ∧
      ((runAll [] {} describedArguments).1.store.SoleRecord ⟨6⟩ ⟨0⟩ ∧
        ((runAll [] {} describedArguments).1.store.describedName ⟨6⟩).isOk = true ∧
        (runAll [] {} describedArguments).1.store.blockOf? ⟨3⟩ = some ⟨2⟩ ∧
        (runAll [] {} describedArguments).1.store.functionOf? ⟨6⟩ =
          (runAll [] {} describedArguments).1.store.functionOf? ⟨2⟩) ∧
      (runAll [] {} describedArguments).1.store.SoleRecord ⟨8⟩ ⟨1⟩ ∧
      ((runAll [] {} describedArguments).1.store.describedName ⟨8⟩).isOk = true ∧
      (runAll [] {} describedArguments).1.store.blockOf? ⟨4⟩ = some ⟨2⟩ ∧
      (runAll [] {} describedArguments).1.store.functionOf? ⟨8⟩ =
        (runAll [] {} describedArguments).1.store.functionOf? ⟨2⟩ := by
    decide +kernel
  obtain ⟨hadmits, hlists, hregistered, hlist, hfirst, hsecond⟩ := hstart
  have h : Reachable { records := true } (runAll [] {} describedArguments).1 :=
    reachable_runAll .new hadmits
  obtain ⟨t, u, ht, hu, hsame, htracks, hbeside⟩ := Reachable.migrations_commute rfl h hlists
    hregistered
    ⟨hfirst.1, hfirst.2.1, by decide, _, hfirst.2.2⟩
    ⟨hsecond.1, hsecond.2.1, by decide, _, hsecond.2.2⟩ (by decide) (by decide) (by decide)
    (by decide) (by decide) (by decide)
  exact ⟨h, hlist, t, u, ht, hu, hsame.instructionsOf _, (htracks _).1.mpr rfl,
    (hbeside _).1 hfirst.2.2.1, (hbeside _).2 hsecond.2.2.1⟩

/-- The block with these sums and records enters a second function. -/
def adoptedRecords : List Command :=
  describedArguments ++ [.run (.make (.function "g" .void [] none none)) (some "g") none,
    .run (.change (.addBlock (some "g") (some "l"))) none none]

/-- Lists and links agree, and the names of values are registered. -/
theorem adoptedRecords_agree :
    (runAll [] {} adoptedRecords).1.store.ListsAgree ∧
      (runAll [] {} adoptedRecords).1.store.Registered := by
  decide +kernel

/-- No two values of one function have one name. -/
theorem adoptedRecords_apart :
    ∀ i < 9, ∀ j < 9, ((runAll [] {} adoptedRecords).1.store.seat? ⟨i⟩).isSome = true →
      (runAll [] {} adoptedRecords).1.store.seat? ⟨i⟩ =
        (runAll [] {} adoptedRecords).1.store.seat? ⟨j⟩ → i = j := by
  decide +kernel

/-- The sums, values 3 and 4, and the records, values 6 and 8, are in function 0 still when their
block is in function 1. -/
theorem adoptedRecords_stale :
    ∀ i ∈ [3, 4, 6, 8], (runAll [] {} adoptedRecords).1.store.blockOf? ⟨i⟩ = some ⟨2⟩ ∧
      (runAll [] {} adoptedRecords).1.store.functionOf? ⟨i⟩ = some ⟨0⟩ := by
  decide +kernel

/-- Either argument has one record, of a variable with a name. -/
theorem adoptedRecords_described :
    (runAll [] {} adoptedRecords).1.store.SoleRecord ⟨6⟩ ⟨0⟩ ∧
      (runAll [] {} adoptedRecords).1.store.SoleRecord ⟨8⟩ ⟨1⟩ ∧
      ((runAll [] {} adoptedRecords).1.store.describedName ⟨6⟩).isOk = true ∧
      ((runAll [] {} adoptedRecords).1.store.describedName ⟨8⟩).isOk = true := by
  decide +kernel

/-- The record of `a` comes first: it is taken out, and function 0 has its name no longer. -/
theorem adoptedRecords_inTurn :
    ((migrateInTurn ⟨0⟩ ⟨3⟩ ⟨1⟩ ⟨4⟩).run (runAll [] {} adoptedRecords).1.store).1 = .ok () ∧
      "UNN.1" ∉ (((migrateInTurn ⟨0⟩ ⟨3⟩ ⟨1⟩ ⟨4⟩).run
        (runAll [] {} adoptedRecords).1.store).2.registry ⟨0⟩).names := by
  decide +kernel

/-- The record of `c` comes first: that of `a` is where it should be, and keeps its name. -/
theorem adoptedRecords_inReverse :
    ((migrateInTurn ⟨1⟩ ⟨4⟩ ⟨0⟩ ⟨3⟩).run (runAll [] {} adoptedRecords).1.store).1 = .ok () ∧
      "UNN.1" ∈ (((migrateInTurn ⟨1⟩ ⟨4⟩ ⟨0⟩ ⟨3⟩).run
        (runAll [] {} adoptedRecords).1.store).2.registry ⟨0⟩).names := by
  decide +kernel

/-- The sums, values 3 and 4, and the records, values 6 and 8, are in function 0 still when their
block is in function 1. Lists and links agree, and the names of values are registered and different.
The record of `a` has to move only if its migration comes first: then function 0 has its name no
longer, else it has. -/
theorem migrations_order_shows :
    Reachable { records := true } (runAll [] {} adoptedRecords).1 ∧
      (runAll [] {} adoptedRecords).1.store.ListsAgree ∧
      (runAll [] {} adoptedRecords).1.store.Registered ∧
      (∀ i < 9, ∀ j < 9, ((runAll [] {} adoptedRecords).1.store.seat? ⟨i⟩).isSome = true →
        (runAll [] {} adoptedRecords).1.store.seat? ⟨i⟩ =
          (runAll [] {} adoptedRecords).1.store.seat? ⟨j⟩ → i = j) ∧
      (runAll [] {} adoptedRecords).1.store.SoleRecord ⟨6⟩ ⟨0⟩ ∧
      (runAll [] {} adoptedRecords).1.store.SoleRecord ⟨8⟩ ⟨1⟩ ∧
      ((runAll [] {} adoptedRecords).1.store.describedName ⟨6⟩).isOk = true ∧
      ((runAll [] {} adoptedRecords).1.store.describedName ⟨8⟩).isOk = true ∧
      (∀ i ∈ [3, 4, 6, 8], (runAll [] {} adoptedRecords).1.store.blockOf? ⟨i⟩ = some ⟨2⟩ ∧
        (runAll [] {} adoptedRecords).1.store.functionOf? ⟨i⟩ = some ⟨0⟩) ∧
      ((migrateInTurn ⟨0⟩ ⟨3⟩ ⟨1⟩ ⟨4⟩).run (runAll [] {} adoptedRecords).1.store).1 = .ok () ∧
      "UNN.1" ∉ (((migrateInTurn ⟨0⟩ ⟨3⟩ ⟨1⟩ ⟨4⟩).run
        (runAll [] {} adoptedRecords).1.store).2.registry ⟨0⟩).names ∧
      ((migrateInTurn ⟨1⟩ ⟨4⟩ ⟨0⟩ ⟨3⟩).run (runAll [] {} adoptedRecords).1.store).1 = .ok () ∧
      "UNN.1" ∈ (((migrateInTurn ⟨1⟩ ⟨4⟩ ⟨0⟩ ⟨3⟩).run
        (runAll [] {} adoptedRecords).1.store).2.registry ⟨0⟩).names := by
  have hreachable : Reachable { records := true } (runAll [] {} adoptedRecords).1 :=
    reachable_runAll .new (by decide +kernel)
  obtain ⟨hlists, hregistered⟩ := adoptedRecords_agree
  obtain ⟨hfirst, hsecond, hnamed, hnamed'⟩ := adoptedRecords_described
  obtain ⟨hturn, hlost⟩ := adoptedRecords_inTurn
  obtain ⟨hreverse, hkept⟩ := adoptedRecords_inReverse
  exact ⟨hreachable, hlists, hregistered, adoptedRecords_apart, hfirst, hsecond, hnamed, hnamed',
    adoptedRecords_stale, hturn, hlost, hreverse, hkept⟩

end Script.Session
end SsaDebugInfo
