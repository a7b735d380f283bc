import SsaDebugInfo.Proofs.Script.Leads

/-!
# Sessions that allowed operations lead to

What is asked of an operation may depend on the session that it starts from and on how it ends, and
not only on the operands that it hands over. The sessions that operations of some sort lead to are
closed under all other commands (`Session.ReachableBy`).

- `Session.ReachableBy.permitted`, `Session.ReachableBy.mono`: what else the sessions are reached
  by.
- `Session.ReachableBy.induction`: what allowed operations, changes that leave everything where it
  is and collections preserve holds in every session reached.
- `Session.runOperation_ends`: an operation acts, then puts what it has made where it belongs.
- `Session.reachableBy_runAll`: a script of allowed operations.
-/

namespace SsaDebugInfo.Script

open Act Store

namespace Session

/-- The sessions that allowed operations and the other commands lead to. -/
inductive ReachableBy (allows : Session → Operation → Given → Given → Bool) : Session → Prop
  | new : ReachableBy allows {}
  | run {session : Session} {operation : Operation} (bindTo into : Given) :
      ReachableBy allows session → allows session operation bindTo into = true →
      ReachableBy allows (session.runOperation operation bindTo into).2
  | drop {session : Session} (label : Label) :
      ReachableBy allows session → ReachableBy allows (session.drop label).2
  | openNotes {session : Session} (engine : Given) (notes : List Given) :
      ReachableBy allows session → ReachableBy allows (session.openNotes engine notes).2
  | closeNotes {session : Session} (engine : EngineId) (count : Nat) (escaped : Bool) :
      ReachableBy allows session → ReachableBy allows (session.closeNotes engine count escaped)
  | settle {session : Session} (watch : List Label)
      (step : List Entry → List (Label × Snapshot) → Step) :
      ReachableBy allows session → ReachableBy allows (session.settle watch step).1

variable {allows : Session → Operation → Given → Given → Bool} {session next : Session}

/-- Where a discipline permits all operations that are allowed, the sessions are reachable under the
discipline. -/
theorem ReachableBy.permitted {d : Discipline}
    (hpermitted : ∀ session operation bindTo into, allows session operation bindTo into = true →
      operation.permitted d session.labels session.store = true)
    (h : ReachableBy allows session) : Reachable d session := by
  induction h with
  | new => exact .new
  | run bindTo into _ hallows ih => exact ih.run bindTo into (hpermitted _ _ bindTo into hallows)
  | drop label _ ih => exact ih.drop label
  | openNotes engine notes _ ih => exact ih.openNotes engine notes
  | closeNotes engine count escaped _ ih => exact ih.closeNotes engine count escaped
  | settle watch step _ ih => exact ih.settle watch step

/-- Whatever is asked of operations, the sessions are reachable. -/
theorem ReachableBy.reachable (h : ReachableBy allows session) : Reachable {} session :=
  h.permitted fun _ _ _ _ _ => Operation.permitted_default _ _ _

/-- Where more operations are allowed, no sessions are lost. -/
theorem ReachableBy.mono {more : Session → Operation → Given → Given → Bool}
    (hmore : ∀ session operation bindTo into, allows session operation bindTo into = true →
      more session operation bindTo into = true)
    (h : ReachableBy allows session) : ReachableBy more session := by
  induction h with
  | new => exact .new
  | run bindTo into _ hallows ih => exact ih.run bindTo into (hmore _ _ bindTo into hallows)
  | drop label _ ih => exact ih.drop label
  | openNotes engine notes _ ih => exact ih.openNotes engine notes
  | closeNotes engine count escaped _ ih => exact ih.closeNotes engine count escaped
  | settle watch step _ ih => exact ih.settle watch step

theorem ReachableBy.leads (h : ReachableBy allows session) : Leads allows {} session := by
  induction h with
  | new => exact .refl
  | run bindTo into _ hallows ih => exact ih.tail (.run bindTo into hallows)
  | drop label _ ih => exact ih.tail (.drop label)
  | openNotes engine notes _ ih => exact ih.tail (.openNotes engine notes)
  | closeNotes engine count escaped _ ih => exact ih.tail (.closeNotes engine count escaped)
  | settle watch step _ ih => exact ih.tail (.settle watch step)

theorem ReachableBy.sound (h : ReachableBy allows session) : session.Sound :=
  h.reachable.sound

/-- A property of stores holds in every session reached if allowed operations, changes that leave
everything where it is and collections preserve it. -/
theorem ReachableBy.induction {P : Store → Prop} (hinitial : P .initial)
    (hrun : ∀ {session : Session} {operation : Operation} {bindTo into : Given}, session.Sound →
      P session.store → allows session operation bindTo into = true →
      P (session.runOperation operation bindTo into).2.store)
    (hstill : ∀ {s t : Store}, Unmoved s t → t.Sound → P s → P t)
    (hcollect : ∀ {s : Store} {roots : List Slot}, s.Sound → P s → P (s.collect roots))
    (h : ReachableBy allows session) : P session.store := by
  induction h with
  | new => exact hinitial
  | run bindTo into h hallows ih => exact hrun h.sound ih hallows
  | drop label _ ih =>
    rw [store_drop]
    exact ih
  | openNotes engine notes h ih =>
    exact hstill (still_openNotes engine notes) (h.openNotes engine notes).sound.store ih
  | closeNotes engine count escaped h ih =>
    exact hstill (still_closeNotes engine count escaped)
      (h.closeNotes engine count escaped).sound.store ih
  | @settle session watch step h ih =>
    have hsound : ({ session.store with journal := [] } : Store).Sound :=
      h.sound.store.of_aside (aside_annotate _ _)
    refine hcollect hsound (hstill (.of_get?_eq (fun {kind} id => ?_) fun kind => ?_) hsound ih)
    · cases kind <;> rfl
    · cases kind <;> rfl

/-! ## Operations in two parts -/

/-- The second part of an operation: what has been made is put where it belongs. -/
def entering (labels : Labels) (into : Given) (outcome : Outcome) : Act Unit := do
  if into.isSome then enter (← labels.look into) (outcome.made.getD none)

theorem act_ok {α : Type} {action : Act α} {answers : α → Store → Prop}
    {faults : Fault → Store → Prop} (h : action.Ends session.store answers faults) {a : α}
    (hact : session.act action = (.ok a, next)) : answers a next.store := by
  obtain ⟨hanswer, rfl⟩ := Prod.mk.inj hact
  exact h.ok (Prod.ext hanswer rfl)

theorem act_error {α : Type} {action : Act α} {answers : α → Store → Prop}
    {faults : Fault → Store → Prop} (h : action.Ends session.store answers faults) {f : Fault}
    (hact : session.act action = (.error f, next)) : faults f next.store := by
  obtain ⟨hfault, rfl⟩ := Prod.mk.inj hact
  exact h.error (Prod.ext hfault rfl)

/-- An operation leaves a store that something holds of if performing it and putting what has been
made where it belongs do. Some faults may be excepted. -/
theorem runOperation_ends {P : Store → Prop} (lost : Fault → Prop) {operation : Operation}
    {bindTo into : Given}
    (hperform : (operation.perform session.labels).Ends session.store (fun _ t => P t)
      fun f t => ¬ lost f → P t)
    (henter : ∀ outcome next, session.act (operation.perform session.labels) = (.ok outcome, next) →
      P next.store →
      (entering (next.bindMade bindTo outcome).labels into outcome).Ends next.store (fun _ t => P t)
        fun f t => ¬ lost f → P t)
    (hfault : ∀ f, (session.runOperation operation bindTo into).1 = .error f → ¬ lost f) :
    P (session.runOperation operation bindTo into).2.store := by
  unfold runOperation at hfault ⊢
  split at hfault
  · next f next heq => exact act_error hperform heq (hfault f rfl)
  · next outcome next heq =>
    have hbound := henter outcome next heq (act_ok hperform heq)
    rw [← store_bindMade bindTo outcome] at hbound
    dsimp only at hfault ⊢
    split at hfault
    · next f last heq' => exact act_error hbound heq' (hfault f rfl)
    · next last heq' => exact act_ok hbound heq'

/-! ## Scripts -/

theorem Next.reachableBy (hnext : Next allows session next) (h : ReachableBy allows session) :
    ReachableBy allows next := by
  cases hnext with
  | run bindTo into hallows => exact h.run bindTo into hallows
  | drop label => exact h.drop label
  | openNotes engine notes => exact h.openNotes engine notes
  | closeNotes engine count escaped => exact h.closeNotes engine count escaped
  | settle watch step => exact h.settle watch step

theorem Leads.reachableBy (hleads : Leads allows session next) (h : ReachableBy allows session) :
    ReachableBy allows next := by
  induction hleads with
  | refl => exact h
  | tail _ hnext ih => exact hnext.reachableBy ih

/-- A script of allowed operations leads to a session that is reachable by them. -/
theorem reachableBy_runAll {watch : List Label} {commands : List Command}
    (h : ReachableBy allows session) (hall : allowsAll allows watch session commands = true) :
    ReachableBy allows (session.runAll watch commands).1 :=
  Leads.reachableBy (leads_runAll hall) h

end Session

end SsaDebugInfo.Script
