import SsaDebugInfo.Proofs.Records.Shuffled
import SsaDebugInfo.Proofs.Resolver
import SsaDebugInfo.Proofs.Script.Migration
import SsaDebugInfo.Proofs.Script.Scattering

/-!
# Sessions in which users come in any order

The finder takes the first record among the users of a wrapper, and the users of a value are a set.
Here they may come in another order before every command, so that the records found are any that
could be. What holds between operations still does, and with it all that is proved of sound stores:
which record is migrated or scattered depends on the order, but not what happens to it.

- `ReachableInAnyOrder`: the sessions that commands lead to while users are shuffled in between.
- `ReachableInAnyOrder.induction`: what holds in all of them.
- `ReachableInAnyOrder.migrate_moves_any`, `ReachableInAnyOrder.scatter_describes_any`: migrating
  and scattering in them.
-/

namespace SsaDebugInfo

open Act Store

/-- Stores that are the same but for the order of users are the same to the search for locations. -/
theorem Store.Shuffled.reordered {s t : Store} (h : s.Shuffled t) : s.Reordered t where
  instruction := h.instruction?
  users := h.users

namespace Script.Session

variable {d : Discipline} {session next : Session} {t : Store} {source target v r : ValueId}
  {u : Store}

/-- The sessions that permitted operations and the other commands lead to, where the users of values
may come in another order at any time. -/
inductive ReachableInAnyOrder (d : Discipline) : Session → Prop
  | new : ReachableInAnyOrder d {}
  | follow {session next : Session} : ReachableInAnyOrder d session → Follows d session next →
      ReachableInAnyOrder d next
  | shuffle {session : Session} {t : Store} : ReachableInAnyOrder d session →
      session.store.Shuffled t → ReachableInAnyOrder d { session with store := t }

/-- The order in which users are listed is one of those in which they may come. -/
theorem Reachable.inAnyOrder (h : Reachable d session) : ReachableInAnyOrder d session := by
  induction h with
  | new => exact .new
  | run bindTo into _ hpermitted ih => exact ih.follow (.run bindTo into hpermitted)
  | drop label _ ih => exact ih.follow (.drop label)
  | openNotes engine notes _ ih => exact ih.follow (.openNotes engine notes)
  | closeNotes engine count escaped _ ih => exact ih.follow (.closeNotes engine count escaped)
  | settle watch step _ ih => exact ih.follow (.settle watch step)

/-- A session stays sound while users are shuffled. -/
theorem Sound.shuffle (hs : session.Sound) (h : session.store.Shuffled t) :
    Sound { session with store := t } where
  store := h.sound hs.store
  labels := hs.labels.extends h.toExtends
  pinned slot hslot := h.toExtends.hasIn (hs.pinned slot hslot)

namespace ReachableInAnyOrder

/-- A property of stores that admissible edits, collections and other orders of users preserve holds
in every session so reached, and these sessions are sound. -/
theorem induction {P : Store → Prop} (hinitial : P .initial)
    (hedit : ∀ {s : Store} {e : Edit}, s.Sound → P s → e.Admissible d s → P (e.act.run s).2)
    (hcollect : ∀ {s : Store} {roots : List Slot}, s.Sound → P s → P (s.collect roots))
    (hshuffle : ∀ {s t : Store}, s.Sound → P s → s.Shuffled t → P t)
    (h : ReachableInAnyOrder d session) : session.Sound ∧ P session.store := by
  induction h with
  | new => exact ⟨sound_new, hinitial⟩
  | follow _ hnext ih => exact hnext.preserves hedit hcollect ih.1 ih.2
  | shuffle _ hshuffled ih =>
    exact ⟨ih.1.shuffle hshuffled, hshuffle ih.1.store ih.2 hshuffled⟩

theorem sound (h : ReachableInAnyOrder d session) : session.Sound :=
  (h.induction (P := fun _ => True) trivial (fun _ _ _ => trivial) (fun _ _ => trivial)
    fun _ _ _ => trivial).1

/-- Users and operands agree while all operands handed over are values. -/
theorem useDef (hd : d.values = true) (h : ReachableInAnyOrder d session) :
    session.store.UseDef :=
  (h.induction useDef_initial (fun hs huses he => (huses.kept_by_edit hd hs he).1)
    (fun hs huses => huses.collect hs _) fun _ huses ht => ht.useDef huses).2

/-- Records hold tied wrappers while the debug operations alone make records and change their
operands. -/
theorem recorded (hd : d.records = true) (h : ReachableInAnyOrder d session) :
    session.store.Recorded :=
  (h.induction recorded_initial (fun hs hrecorded he => hrecorded.kept_by_edit hd hs he)
    (fun hs hrecorded => hrecorded.collect hs _)
    fun hs hrecorded ht => ht.recorded hs.interned hrecorded).2

theorem wrapsOlder (h : ReachableInAnyOrder d session) : session.store.WrapsOlder :=
  (h.induction wrapsOlder_initial (fun hs hwraps he => hwraps.kept_by_edit hs he)
    (fun _ hwraps => hwraps.collect) fun _ hwraps ht => ht.wrapsOlder hwraps).2

/-- In whatever order users come, while the debug operations alone make records and change their
operands, a migration that succeeds takes one record of the source to the target, if the source has
any, and every other record tracks what it tracked. Each record of the source is the one taken in
some order. -/
theorem migrate_moves_any (hd : d.records = true) (h : ReachableInAnyOrder d session)
    (hsource : session.store.Has (.value source)) (hne : target ≠ source)
    (hrun : (migrate (.ofValue source) (.ofValue target)).run session.store = (.ok (), t)) :
    (∃ o u, (findRecord (.ofValue source)).run session.store = (.ok o, u) ∧
      (o.isSome = true ↔ ∃ r, session.store.tracks r source = true) ∧
      (∀ r, o = some r → session.store.tracks r source = true ∧ t.tracks r target = true ∧
        t.tracks r source = false) ∧
      ∀ r v, o ≠ some r → session.store.Has (.value v) →
        t.tracks r v = session.store.tracks r v) ∧
    ∀ r, session.store.tracks r source = true → ∃ s u, session.store.Shuffled s ∧
      ReachableInAnyOrder d { session with store := s } ∧
      (findRecord (.ofValue source)).run s = (.ok (some r), u) := by
  have hs := h.sound.store
  refine ⟨(migrate_moves_one hs (h.recorded hd) hsource hne hrun).1, fun r hr => ?_⟩
  obtain ⟨s, u, hshuffled, hfind⟩ := exists_shuffled_findRecord hs (h.recorded hd) hr
  exact ⟨s, u, hshuffled, h.shuffle hshuffled, hfind⟩

/-- In whatever order users come, whichever record of the vector is found: where lists and links
agree, let the vector be built by insertions that stand in blocks and insert values at numbers, let
the record describe a variable with a name, and let all elements end within the piece that the
record describes, if it describes a piece. Then scattering succeeds, and right behind each insertion
stands a new record, which tracks the element that is inserted. All else stays. -/
theorem scatter_describes_any (h : ReachableInAnyOrder d session)
    (hlists : session.store.ListsAgree) {o : Value} {type : Ty} {width : Int} {binding : Binding}
    {loc : Slot} {parent : Option Expression.BitPiece} {links : List ValueId}
    {index : ValueId → Int} (ho : session.store.get? v = some o)
    (hinsert : o.isInsertElement = true) (htype : o.type.vectorElement? = some type)
    (hfind : (findRecord (.ofValue v)).run session.store = (.ok (some r), u))
    (hname : (session.store.describedName r).isOk = true)
    (hwidth : ((session.store.layoutFor r).sizeInBits type).1 = .ok width)
    (hbinding : (session.store.get? r).bind Value.binding? = some binding)
    (hloc : (session.store.instruction? r).map Instruction.loc = some loc)
    (hparent : session.store.parentPiece binding.expression = .ok parent)
    (hbuilds : session.store.Builds (.ofValue v) links)
    (hlinks : ∀ link ∈ links, (∃ b, session.store.blockOf? link = some b) ∧
      session.store.InsertsValue link)
    (hindex : ∀ link ∈ links, session.store.elementIndex link = .ok (index link))
    (hfits : ∀ link ∈ links, ∀ piece, parent = some piece →
      index link * width + width ≤ piece.size) :
    ∃ t records, (scatter (.ofValue v)).run session.store = (.ok (), t) ∧
      session.store.Scattered binding.var loc width
        (links.map fun link => (link, pieceStart parent + index link * width)) records t ∧
      List.Forall₂ (fun link r' => ∃ element,
        (session.store.operandsOf link)[1]? = some (.ofValue element) ∧
          ∀ x, t.tracks r' x = true ↔ x = element) links records := by
  obtain ⟨t, records, hrun, _, hscattered, htracks, _⟩ :=
    scatter_describes h.sound.store h.wrapsOlder hlists ho hinsert htype hfind hname hwidth hbinding
      hloc hparent hbuilds hlinks hindex hfits
  exact ⟨t, records, hrun, hscattered, htracks⟩

end ReachableInAnyOrder

end Script.Session

end SsaDebugInfo
