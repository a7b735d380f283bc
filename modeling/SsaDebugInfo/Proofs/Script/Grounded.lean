import SsaDebugInfo.Proofs.Records.Grounded
import SsaDebugInfo.Proofs.Script.Rules

/-!
# Walks along vectors in scripts

An insertion is made for a vector that is there, so that the walk along the insertions that build a
vector ends. Only an exchange of operands can make it go round: an insertion may be given itself for
its vector, or one that is built on it. As long as no operation does this, walks end in every
session that is reached, and so does every scattering; but a walk may end at an insertion that has
given up its operands.

- `Session.keepsGrounded`: operations that give no insertion a vector that leads back to it.
- `Session.ReachableBy.walks_end`: where walks end in every session that is reached so.
- `Session.walk_goes_round`: insertions may be led back to, and may have no operands.
-/

namespace SsaDebugInfo.Script

open Act Store

variable {s : Store} {labels : Labels}

/-! ## What may lead back -/

/-- The user that gets another first operand from a change of operands, and this operand. -/
def Change.newFirst? (labels : Labels) (s : Store) : Change → Option (ValueId × Slot)
  | .setOperand user index value => do
    let id ← (labels.given user).value?
    if position? (s.operandsOf id).length index = some 0 then return (id, labels.given value)
    else none
  | .setOperands user values => do
    return (← (labels.given user).value?, labels.given (← values.head?))
  | _ => none

/-- Whether an operation gives no insertion a vector from which a walk comes to it. -/
def Session.keepsGrounded (session : Session) (operation : Operation) (_bindTo _into : Given) :
    Bool :=
  match operation with
  | .change what => (what.newFirst? session.labels session.store).all fun (user, vector) =>
    !session.store.leadsBack user vector
  | _ => true

/-! ## Operations -/

/-- The scope of what exchanges no operands of insertions. -/
def Operation.quietScope (labels : Labels) (operation : Operation) : Scope :=
  { operation.scope labels true with rebuilds := false }

theorem Operation.grounded_of_touches (operation : Operation) (h : s.Grounded)
    (hrebuilds : operation.rebuilds = false) :
    (operation.perform labels).Ends s (fun _ t => t.Grounded) fun _ t => t.Grounded := by
  have htouches : (operation.perform labels).Only (Touches (operation.quietScope labels)) :=
    operation.touches_within (fun _ => trivial) (fun _ => Iff.rfl) (fun _ => rfl)
      fun hnot => nomatch hrebuilds.symm.trans hnot
  exact (htouches.ends s).mono (fun _ _ ht => ht.grounded rfl h) fun _ _ ht => ht.grounded rfl h

theorem grounded_performChange (hlabels : labels.Held s) (h : s.Grounded) {what : Change}
    (hnew : ∀ user vector, what.newFirst? labels s = some (user, vector) →
      s.leadsBack user vector = false) :
    (performChange labels what).Ends s (fun _ t => t.Grounded) fun _ t => t.Grounded := by
  -- what a change leaves to be told does not matter
  have hdone : ∀ {act : Act Unit}, act.Ends s (fun _ t => t.Grounded) (fun _ t => t.Grounded) →
      (do act; return .silent : Act Outcome).Ends s (fun _ t => t.Grounded)
        fun _ t => t.Grounded := fun hact => hact.bind fun _ _ ht => ends_pure ht
  cases hrebuilds : what.rebuilds with
  | false => exact Operation.grounded_of_touches (.change what) h hrebuilds
  | true =>
  cases what with
  | setOperand user index value =>
    refine Reads.bind_ends (reads_look hlabels user) (fun _ => h) fun slot hslot => ?_
    refine Reads.bind_ends (reads_look hlabels value) (fun _ => h) fun operand hoperand => ?_
    refine Reads.bind_ends reads_userIn (fun _ => h) fun id hid => hdone (.of_left ?_)
    refine grounded_setOperand h fun hplace => hnew id operand ?_
    rw [Change.newFirst?, Labels.given_eq hslot.1, Labels.given_eq hoperand.1, hid.1]
    exact if_pos hplace
  | setOperands user values =>
    refine Reads.bind_ends (reads_look hlabels user) (fun _ => h) fun slot hslot => ?_
    refine Reads.bind_ends (reads_lookAll hlabels values) (fun _ => h) fun operands hoperands => ?_
    refine Reads.bind_ends reads_userIn (fun _ => h) fun id hid => hdone (.of_left ?_)
    refine grounded_setOperands h fun vector hvector => hnew id vector ?_
    rw [← hoperands.map_given, List.head?_map] at hvector
    obtain ⟨first, hfirst, rfl⟩ := Option.map_eq_some_iff.mp hvector
    rw [Change.newFirst?, Labels.given_eq hslot.1, hid.1, hfirst]
    rfl
  | dropReferences user =>
    refine hdone (Reads.bind_ends (reads_lookIn hlabels user fun _ => reads_userIn) (fun _ => h)
      fun id _ => .of_left ?_)
    exact grounded_setOperands h nofun
  | erase instruction =>
    refine hdone (Reads.bind_ends (reads_lookIn hlabels instruction fun _ => reads_instructionIn)
      (fun _ => h) fun id _ => .of_left ?_)
    exact grounded_erase h id
  | _ => cases hrebuilds

theorem Operation.grounded_perform {operation : Operation} (hs : s.Closed)
    (hlabels : labels.Held s) (h : s.Grounded)
    (hnew : ∀ what user vector, operation = .change what →
      what.newFirst? labels s = some (user, vector) → s.leadsBack user vector = false) :
    (operation.perform labels).Ends s (fun _ t => t.Grounded) fun _ t => t.Grounded := by
  cases hrebuilds : operation.rebuilds with
  | false => exact operation.grounded_of_touches h hrebuilds
  | true =>
  cases operation with
  | change what =>
    exact grounded_performChange hlabels h fun user vector => hnew what user vector rfl
  | make value =>
    unfold Operation.rebuilds at hrebuilds
    split at hrebuilds
    · next vector element index name loc heq =>
      obtain rfl : value = _ := by injection heq
      have hmake : (makeNew labels name (.insertElement vector element index)).Ends s
          (fun _ t => t.Grounded) fun _ t => t.Grounded := by
        refine Reads.bind_ends (reads_look hlabels vector) (fun _ => h) fun slot hslot => ?_
        refine Reads.bind_ends (reads_look hlabels element) (fun _ => h) fun _ _ => ?_
        refine Reads.bind_ends (reads_look hlabels index) (fun _ => h) fun _ _ => ?_
        exact Ends.of_left (grounded_makeInsertElement hs h hslot.2 _ _ name)
      refine Ends.bind hmake fun id t ht => ?_
      have hloc : (do
          let loc ← labels.look loc
          update id (·.mapInstruction fun i => { i with loc })
          return .creation (.value id) : Act Outcome).Only (Touches .quiet) := by
        refine (only_look loc).bind fun loc => Only.bind ?_ fun _ => only_pure _
        exact touches_updateInstruction (fun _ => rfl) fun _ => rfl
      exact (hloc.ends t).mono (fun _ _ hu => hu.grounded rfl ht) fun _ _ hu => hu.grounded rfl ht
    · next heq => cases heq
    · cases hrebuilds
  | _ => cases hrebuilds

namespace Session

variable {session : Session}

theorem grounded_runOperation (hs : session.Sound) (h : session.store.Grounded)
    {operation : Operation} {bindTo into : Given}
    (hallowed : session.keepsGrounded operation bindTo into = true) :
    (session.runOperation operation bindTo into).2.store.Grounded := by
  have hnew : ∀ what user vector, operation = .change what →
      what.newFirst? session.labels session.store = some (user, vector) →
      session.store.leadsBack user vector = false := by
    rintro what user vector rfl hfirst
    unfold keepsGrounded at hallowed
    dsimp only at hallowed
    rw [hfirst] at hallowed
    simpa using hallowed
  refine runOperation_ends (fun _ => False)
    ((operation.grounded_perform hs.store.closed hs.labels h hnew).mono (fun _ _ ht => ht)
      fun _ _ ht _ => ht) (fun outcome next _ hnext => ?_) fun _ _ => id
  -- what has been made is put somewhere
  have henter : (entering (next.bindMade bindTo outcome).labels into outcome).Only
      (Touches { Scope.quiet with places := true }) := by
    unfold entering
    split
    · exact (only_look _).bind fun _ => touches_enter rfl _ _
    · exact only_pure ()
  exact (henter.ends _).mono (fun _ _ ht => ht.grounded rfl hnext)
    fun _ _ ht _ => ht.grounded rfl hnext

/-- Where no insertion is given a vector that leads back to it, no walk goes on for ever. -/
theorem ReachableBy.grounded (h : ReachableBy keepsGrounded session) : session.store.Grounded :=
  Leads.preserves h.leads .new
    (fun hs hP hallowed => grounded_runOperation hs hP hallowed)
    (fun _ hP htouches => htouches.grounded rfl hP) (fun _ hP => hP.collect _) grounded_initial

/-- As long as no exchange of operands gives an insertion a vector that leads back to it, every walk
passes each insertion once and ends: where there is no insertion, and then the chain is what has
been passed, or at an insertion that has given up its operands, where it faults. So every scattering
ends. -/
theorem ReachableBy.walks_end (h : ReachableBy keepsGrounded session) (slot : Slot) :
    (∃ links last, session.store.Passes slot links last ∧ links.Nodup ∧
      (session.store.NoInsertion last ∧ session.store.chain slot = .ok links ∨
        session.store.GivenUp last ∧ session.store.chain slot = .error .noSuchPosition)) ∧
      ((scatter slot).run session.store).1 ≠ .error .endlessChain := by
  refine ⟨h.grounded.chain_ends slot, fun hfault => ?_⟩
  exact (scatter_ne_endless h.sound.store h.grounded slot).error (run_eq_error hfault) rfl

/-- A vector built by two insertions, of which the first is given another insertion for its vector.
The second one has a record. -/
def redirectedInsertion : List Command :=
  [.run (.make (.argument "v" (.vector 2 (.int 32)))) (some "v") none,
   .run (.make (.argument "x" (.int 32))) (some "x") none,
   .run (.make (.constant (.integer 0) (.int 32) none)) (some "i") none,
   .run (.make (.block "entry" [])) (some "entry") none,
   .run (.make (.instruction (.insertElement (some "v") (some "x") (some "i")) "w" none))
     (some "w") (some "entry"),
   .run (.make (.instruction (.insertElement (some "w") (some "x") (some "i")) "z" none))
     (some "z") (some "entry"),
   .run (.make (.instruction (.insertElement (some "v") (some "x") (some "i")) "u" none))
     (some "u") (some "entry"),
   .run (.metadata (.localVariable "var" none none 1 0)) (some "var") none,
   .run (.make (.bind (some "z") (some "var") none none 0 (.beside none (some "z"))))
     (some "record") none,
   .run (.change (.setOperand (some "w") 0 (some "u"))) none none]

/-- The walk from the second insertion, value 5, passes the first one, value 4, and the one that
this has got for its vector, value 6, and ends at the argument. -/
theorem walks_end_redirectedInsertion :
    ReachableBy keepsGrounded (runAll [] {} redirectedInsertion).1 ∧
      (runAll [] {} redirectedInsertion).1.store.chain (.ofValue ⟨5⟩) =
        .ok [⟨5⟩, ⟨4⟩, ⟨6⟩] ∧
      (∃ last, (runAll [] {} redirectedInsertion).1.store.Passes (.ofValue ⟨5⟩)
          [⟨5⟩, ⟨4⟩, ⟨6⟩] last ∧
        (runAll [] {} redirectedInsertion).1.store.NoInsertion last) ∧
      ((scatter (.ofValue ⟨5⟩)).run (runAll [] {} redirectedInsertion).1.store).1 ≠
        .error .endlessChain := by
  have h : ReachableBy keepsGrounded (runAll [] {} redirectedInsertion).1 :=
    reachableBy_runAll .new (by decide +kernel)
  have hchain : (runAll [] {} redirectedInsertion).1.store.chain (.ofValue ⟨5⟩) =
      .ok [⟨5⟩, ⟨4⟩, ⟨6⟩] := by
    decide +kernel
  obtain ⟨⟨links, last, hpasses, _, hends⟩, hscatter⟩ := ReachableBy.walks_end h (.ofValue ⟨5⟩)
  refine ⟨h, hchain, ?_, hscatter⟩
  rcases hends with ⟨hnone, hlinks⟩ | ⟨_, hfault⟩
  · obtain rfl := Except.ok.inj (hchain.symm.trans hlinks)
    exact ⟨last, hpasses, hnone⟩
  · cases hchain.symm.trans hfault

/-- What an insertion and a change that follows it lead to. -/
def insertionThen (what : Change) : Session :=
  (runAll [] {}
    [.run (.make (.argument "v" (.vector 2 (.int 32)))) (some "v") none,
     .run (.make (.argument "x" (.int 32))) (some "x") none,
     .run (.make (.constant (.integer 0) (.int 32) none)) (some "i") none,
     .run (.make (.instruction (.insertElement (some "v") (some "x") (some "i")) "w" none))
       (some "w") none,
     .run (.change what) none none]).1

/-- The insertion has itself for its vector. -/
def roundInsertion : Session :=
  insertionThen (.setOperand (some "w") 0 (some "w"))

/-- The insertion has no operands. -/
def emptiedInsertion : Session :=
  insertionThen (.setOperands (some "w") [])

/-- An insertion, value 3, may be given itself for its vector. Then the walk from it comes to
nothing else, and however long it is, it is not over. And where an insertion has been given no
operands, the walk stops at it, and there is no chain. -/
theorem walk_goes_round :
    (Reachable { values := true } roundInsertion ∧
      (¬ ∃ links last, roundInsertion.store.Passes (.ofValue ⟨3⟩) links last ∧
        roundInsertion.store.NoInsertion last) ∧
      ∀ fuel, roundInsertion.store.chainWithin fuel (.ofValue ⟨3⟩) = .error .endlessChain) ∧
      Reachable { values := true } emptiedInsertion ∧
      (¬ ∃ links last, emptiedInsertion.store.Passes (.ofValue ⟨3⟩) links last ∧
        emptiedInsertion.store.NoInsertion last) ∧
      emptiedInsertion.store.chain (.ofValue ⟨3⟩) = .error .noSuchPosition := by
  have hround : roundInsertion.store.GoesRound (.ofValue ⟨3⟩) :=
    ⟨.ofValue ⟨3⟩, by decide +kernel, .refl⟩
  have hlast : emptiedInsertion.store.vectorOf? (.ofValue ⟨3⟩) = none := by decide +kernel
  have hgiven : emptiedInsertion.store.chain (.ofValue ⟨3⟩) = .error .noSuchPosition := by
    decide +kernel
  refine ⟨⟨reachable_runAll .new (by decide +kernel), ?_, hround.chainWithin⟩,
    reachable_runAll .new (by decide +kernel), ?_, hgiven⟩
  · rintro ⟨links, last, hpasses, hnone⟩
    exact (hround.passes hpasses).not_noInsertion hnone
  · rintro ⟨links, last, hpasses, hnone⟩
    obtain ⟨_, rfl⟩ := hpasses.of_last hlast
    cases hgiven.symm.trans (hnone.chainWithin _)

end Session

end SsaDebugInfo.Script
