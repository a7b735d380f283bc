import SsaDebugInfo.Proofs.Script.Session
import SsaDebugInfo.Proofs.Script.Touches

/-!
# From one session to another

What happens to a store between two commands is what the commands in between do to it. A session
leads to others by operations, on each of which something may be asked, and by all other commands.

- `Session.Leads.preserves`: what allowed operations, other changes and collections preserve.
- `Session.Next.changes`: what one part of a command does to handles, wrappers and tables.
- `Session.Reachable.touching`: what single changes and collections preserve, in every session.
- `Session.leads_runAll`: a script of allowed operations.
-/

namespace SsaDebugInfo.Script

open Act Store

/-- A discipline that asks for nothing permits every operation. -/
theorem Operation.permitted_default (operation : Operation) (labels : Labels) (s : Store) :
    operation.permitted {} labels s = true := rfl

namespace Session

/-- The sessions that one allowed operation, or one part of another command, leads to. -/
inductive Next (allows : Session → Operation → Given → Given → Bool) (session : Session) :
    Session → Prop
  | run {operation : Operation} (bindTo into : Given)
      (h : allows session operation bindTo into = true) :
      Next allows session (session.runOperation operation bindTo into).2
  | drop (label : Label) : Next allows session (session.drop label).2
  | openNotes (engine : Given) (notes : List Given) :
      Next allows session (session.openNotes engine notes).2
  | closeNotes (engine : EngineId) (count : Nat) (escaped : Bool) :
      Next allows session (session.closeNotes engine count escaped)
  | settle (watch : List Label) (step : List Entry → List (Label × Snapshot) → Step) :
      Next allows session (session.settle watch step).1

/-- The sessions that allowed operations and the other commands lead to. -/
abbrev Leads (allows : Session → Operation → Given → Given → Bool) : Session → Session → Prop :=
  Relation.ReflTransGen (Next allows)

variable {allows : Session → Operation → Given → Given → Bool} {session next : Session}

theorem Next.reachable (hnext : Next allows session next) (h : Reachable {} session) :
    Reachable {} next := by
  cases hnext with
  | run bindTo into _ => exact h.run bindTo into (Operation.permitted_default _ _ _)
  | drop label => exact h.drop label
  | openNotes engine notes => exact h.openNotes engine notes
  | closeNotes engine count escaped => exact h.closeNotes engine count escaped
  | settle watch step => exact h.settle watch step

theorem Leads.reachable (hleads : Leads allows session next) (h : Reachable {} session) :
    Reachable {} next := by
  induction hleads with
  | refl => exact h
  | tail _ hnext ih => exact hnext.reachable ih

/-- What an operation touches, and what putting its object where it belongs does. -/
theorem touches_runOperation (session : Session) (operation : Operation) (bindTo into : Given) :
    Touches (operation.scope session.labels true) session.store
      (session.runOperation operation bindTo into).2.store := by
  have hperform : Touches (operation.scope session.labels true) session.store
      (session.act (operation.perform session.labels)).2.store :=
    touches_act session (operation.touches_perform fun _ => rfl)
  unfold runOperation
  split
  · next heq =>
    rw [heq] at hperform
    exact hperform
  · next outcome next heq =>
    rw [heq] at hperform
    have henter : (do
        if into.isSome then
          enter (← (next.bindMade bindTo outcome).labels.look into) (outcome.made.getD none)
        : Act Unit).Only (Touches (operation.scope session.labels true)) := by
      split
      · exact (only_look _).bind fun _ => touches_enter rfl _ _
      · exact only_pure ()
    have hentered := touches_act (next.bindMade bindTo outcome) henter
    rw [store_bindMade] at hentered
    dsimp only
    split
    · next heq' =>
      rw [heq'] at hentered
      exact hperform.trans hentered
    · next heq' =>
      rw [heq'] at hentered
      exact hperform.trans hentered

/-- A property of stores is preserved on the way from a reachable session if allowed operations,
quiet changes and collections preserve it. -/
theorem Leads.preserves {P : Store → Prop} (hleads : Leads allows session next)
    (h : Reachable {} session)
    (hrun : ∀ {session : Session} {operation : Operation} {bindTo into : Given}, session.Sound →
      P session.store → allows session operation bindTo into = true →
      P (session.runOperation operation bindTo into).2.store)
    (htouches : ∀ {s t : Store}, s.Sound → P s → Touches .quiet s t → P t)
    (hcollect : ∀ {s : Store} {roots : List Slot}, s.Sound → P s → P (s.collect roots))
    (hP : P session.store) : P next.store := by
  induction hleads with
  | refl => exact hP
  | @tail session next hbefore hnext ih =>
    have hsound := (Leads.reachable hbefore h).sound
    cases hnext with
    | run bindTo into hallows => exact hrun hsound ih hallows
    | drop label =>
      rw [store_drop]
      exact ih
    | openNotes engine notes =>
      exact htouches hsound.store ih (touches_openNotes engine notes)
    | closeNotes engine count escaped =>
      exact htouches hsound.store ih (touches_closeNotes engine count escaped)
    | settle watch step =>
      refine hcollect (hsound.store.of_aside (aside_annotate _ _)) (htouches hsound.store ih ?_)
      exact .single (.annotate session.store.labelTypes [])

/-- One part of a command loses no handle, wrapper or entry of a table, unless it is the collection
at the end. -/
theorem Next.changes (hnext : Next allows session next) (h : session.Sound) :
    (∃ c, Touches c session.store next.store) ∧ session.store.MoreTables next.store ∨
      next.store = session.settledStore := by
  have hmore : ∀ {t : Store}, Edited {} session.store t → session.store.MoreTables t :=
    fun ht => ht.edits.moreTables h.store
  cases hnext with
  | @run operation bindTo into _ =>
    have hled := led_runOperation h (Operation.permitted_default operation _ _) bindTo into
    exact .inl ⟨⟨_, touches_runOperation session operation bindTo into⟩, hmore hled.edited⟩
  | drop label =>
    refine .inl ⟨⟨.quiet, ?_⟩, hmore (led_drop h label).edited⟩
    rw [store_drop]
  | openNotes engine notes =>
    exact .inl ⟨⟨.quiet, touches_openNotes engine notes⟩,
      hmore (led_openNotes h engine notes).edited⟩
  | closeNotes engine count escaped =>
    exact .inl ⟨⟨.quiet, touches_closeNotes engine count escaped⟩,
      hmore (closeNotes_spec h engine count escaped).2⟩
  | settle watch step => exact .inr rfl

theorem Reachable.leads {d : Discipline} (h : Reachable d session) :
    Leads (fun _ _ _ _ => true) {} session := by
  induction h with
  | new => exact .refl
  | run bindTo into _ _ ih => exact ih.tail (.run bindTo into rfl)
  | drop label _ ih => exact ih.tail (.drop label)
  | openNotes engine notes _ ih => exact ih.tail (.openNotes engine notes)
  | closeNotes engine count escaped _ ih => exact ih.tail (.closeNotes engine count escaped)
  | settle watch step _ ih => exact ih.tail (.settle watch step)

/-- A property of stores holds in every reachable session if single changes and collections preserve
it. -/
theorem Reachable.touching {d : Discipline} {P : Store → Prop} (h : Reachable d session)
    (hinitial : P .initial)
    (htouch : ∀ {c : Scope} {s t : Store}, P s → Touch c s t → P t)
    (hcollect : ∀ {s : Store} {roots : List Slot}, s.Sound → P s → P (s.collect roots)) :
    P session.store :=
  Leads.preserves h.leads .new
    (fun {session operation bindTo into} _ hP _ =>
      (touches_runOperation session operation bindTo into).preserves htouch hP)
    (fun _ hP htouches => htouches.preserves htouch hP) hcollect hinitial

/-! ## Scripts -/

/-- Whether all operations of a script are allowed, where each comes after those before it.
Attaching notes is not looked into. -/
def allowsAll (allows : Session → Operation → Given → Given → Bool) (watch : List Label)
    (session : Session) : List Command → Bool
  | [] => true
  | command :: rest =>
    (match command with
      | .run operation bindTo into => allows session operation bindTo into
      | .drop _ | .unknown _ => true
      | .withNotes .. => false) &&
      allowsAll allows watch (session.step watch command).1 rest

theorem leads_settleResult (watch : List Label) {result : Except Fault Answer × Session}
    (h : Leads allows session result.2) :
    Leads allows session (settleResult watch result).1 := by
  obtain ⟨_ | _, _⟩ := result
  · exact h.tail (.settle watch _)
  · exact h.tail (.settle watch _)

/-- A script of allowed operations leads from one session to another. -/
theorem leads_runAll {watch : List Label} {commands : List Command}
    (hall : allowsAll allows watch session commands = true) :
    Leads allows session (session.runAll watch commands).1 := by
  induction commands generalizing session with
  | nil => exact .refl
  | cons command rest ih =>
    obtain ⟨hfirst, hrest⟩ := Bool.and_eq_true_iff.mp hall
    refine Relation.ReflTransGen.trans ?_ (ih hrest)
    cases command with
    | run operation bindTo into =>
      unfold step
      exact leads_settleResult watch (.single (.run bindTo into hfirst))
    | drop label =>
      unfold step
      exact leads_settleResult watch (.single (.drop label))
    | withNotes => cases hfirst
    | unknown name =>
      unfold step
      exact .single (.settle watch _)

end Session

end SsaDebugInfo.Script
