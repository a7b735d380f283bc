import SsaDebugInfo.Proofs.Script.Perform
import SsaDebugInfo.Script.Session

/-!
# Reachable sessions

A session is reachable under a discipline if permitted operations, and the other commands, lead to
it from a new session. Commands within commands count: the sessions between them are reachable too.

- `Session.Follows.preserves`: what one step from a session to the next preserves.
- `Session.Reachable.induction`: what admissible edits and collections preserve holds in the store
  of every reachable session, which is sound.
- `Session.led_runOperation`: how a permitted operation ends.
- `Session.reachable_runAll`: a script of permitted commands leads to reachable sessions.
-/

namespace SsaDebugInfo.Script

open Act Store

variable {d : Discipline} {s t : Store} {labels : Labels}

/-! ## Labels -/

theorem Labels.Held.bind (h : labels.Held s) {label : Label} {slot : Slot} (hslot : s.HasIn slot) :
    (labels.bind label slot).Held s := by
  unfold Labels.bind
  split
  · intro entry hentry
    obtain ⟨old, hold, rfl⟩ := List.mem_map.mp hentry
    split
    · exact hslot
    · exact h old hold
  · exact List.forall_mem_append.mpr ⟨h, List.forall_mem_singleton.mpr hslot⟩

theorem Labels.Held.drop (h : labels.Held s) (label : Label) : (labels.drop label).Held s :=
  fun entry hentry => h entry (List.mem_of_mem_filter hentry)

namespace Session

/-! ## Sound sessions -/

/-- The store is sound, and what labels are bound to or commands hold on to is there. -/
structure Sound (session : Session) : Prop where
  store : session.store.Sound
  labels : session.labels.Held session.store
  pinned : ∀ slot ∈ session.pinned, session.store.HasIn slot

/-- What is done to a session changes its store by admissible edits and leaves it sound; a fault
that tells of uses out of step is that of an edit. -/
structure Led {α : Type} (d : Discipline) (session : Session) (outcome : Except Fault α × Session) :
    Prop where
  sound : outcome.2.Sound
  edited : Edited d session.store outcome.2.store
  fault : ∀ f, outcome.1 = .error f → (Conduct.edits d).fault session.store f

variable {session next : Session} {α β : Type}

theorem Sound.edited (h : session.Sound) (ht : Edited d session.store t) :
    Sound { session with store := t } where
  store := ht.sound h.store
  labels := h.labels.extends ht.toExtends
  pinned slot hslot := ht.hasIn (h.pinned slot hslot)

theorem Sound.led (h : session.Sound) {result : Except Fault α} (hplain : Plain result) :
    Led d session (result, session) where
  sound := h
  edited := .refl d _
  fault f hf := (Conduct.edits d).plain (hplain f hf)

/-- What follows from a session that edits have led to is led to all in all. -/
theorem Led.after {outcome : Except Fault α × Session} (h : Led d next outcome)
    (hnext : Edited d session.store next.store) : Led d session outcome where
  sound := h.sound
  edited := hnext.trans h.edited
  fault f hf := (Conduct.edits d).fault_of_change hnext (h.fault f hf)

/-- An action that keeps to edits leads a session by edits. -/
theorem led_act (h : session.Sound) {action : Act α} {answers : α → Store → Prop}
    (hkeeps : action.Keeps (.edits d) session.store answers) :
    Led d session (session.act action) where
  sound := h.edited hkeeps.change
  edited := hkeeps.change
  fault _ hf := hkeeps.fault hf

theorem answer_act {action : Act α} {answers : α → Store → Prop}
    (hkeeps : action.Keeps (.edits d) session.store answers) {a : α}
    (hact : session.act action = (.ok a, next)) : answers a next.store := by
  obtain ⟨hanswer, rfl⟩ := Prod.mk.inj hact
  exact hkeeps.answer hanswer

/-! ## Operations -/

/-- Putting an object where it belongs is a placement. -/
theorem keeps_enter (hs : s.Sound) {container made : Slot} (hcontainer : s.HasIn container)
    (hmade : s.HasIn made) : (enter container made).Keeps (.edits d) s fun _ _ => True := by
  refine reads_get.bind fun t ht => ?_
  subst ht
  split
  · next id i hid =>
    obtain ⟨rfl, _⟩ := Store.instructionIn?_eq_some.mp hid
    refine reads_blockIn.bind fun block hblock => ?_
    exact keeps_place (.append block id) hs (List.forall_mem_cons.mpr
      ⟨hblock.1 ▸ hcontainer, List.forall_mem_singleton.mpr hmade⟩)
  · next id hid _ =>
    obtain ⟨rfl, _⟩ := Store.blockIn?_eq_some.mp hid
    refine reads_idIn.bind fun function hfunction => ?_
    exact keeps_place (.addBlock function id) hs (List.forall_mem_cons.mpr
      ⟨hfunction ▸ hcontainer, List.forall_mem_singleton.mpr hmade⟩)
  · exact keeps_pure trivial

theorem Sound.bindMade (h : session.Sound) (bindTo : Given) {outcome : Outcome}
    (houtcome : outcome.Sound session.store) : (session.bindMade bindTo outcome).Sound := by
  unfold Session.bindMade
  split
  · next slot hmade =>
    exact ⟨h.store, h.labels.bind (houtcome.made slot hmade), h.pinned⟩
  · exact h

@[simp] theorem store_bindMade (bindTo : Given) (outcome : Outcome) :
    (session.bindMade bindTo outcome).store = session.store := by
  unfold bindMade
  split <;> rfl

/-- A permitted operation leads to a sound session by admissible edits, however it ends. -/
theorem led_runOperation (h : session.Sound) {operation : Operation}
    (hpermitted : operation.permitted d session.labels session.store = true) (bindTo into : Given) :
    Led d session (session.runOperation operation bindTo into) := by
  have hkeeps := Operation.keeps_perform h.store h.labels hpermitted
  have hperform := led_act h hkeeps
  unfold runOperation
  split
  · next f next heq =>
    -- a fault in the operation itself ends the command there
    rw [heq] at hperform
    exact ⟨hperform.sound, hperform.edited, fun g hg => hperform.fault g (by cases hg; rfl)⟩
  · next outcome next heq =>
    rw [heq] at hperform
    have houtcome : outcome.Sound next.store := answer_act hkeeps heq
    have hbound : (next.bindMade bindTo outcome).Sound := hperform.sound.bindMade bindTo houtcome
    have hedited : Edited d session.store (next.bindMade bindTo outcome).store := by
      rw [store_bindMade]
      exact hperform.edited
    have hmade : (next.bindMade bindTo outcome).store.HasIn (outcome.made.getD none) := by
      rw [store_bindMade]
      cases hmade : outcome.made with
      | none => exact hasIn_none
      | some slot => exact houtcome.made slot hmade
    -- what has been made is bound to its label first, then put where it belongs
    have henter : (do
        if into.isSome then
          enter (← (next.bindMade bindTo outcome).labels.look into) (outcome.made.getD none)
        : Act Unit).Keeps (.edits d) (next.bindMade bindTo outcome).store fun _ _ => True := by
      split
      · refine (reads_look hbound.labels into).bind fun container hcontainer => ?_
        exact keeps_enter hbound.store hcontainer.2 hmade
      · exact keeps_pure trivial
    have hentered := (led_act hbound henter).after hedited
    dsimp only
    split
    · next f last heq' =>
      rw [heq'] at hentered
      exact ⟨hentered.sound, hentered.edited, fun g hg => hentered.fault g (by cases hg; rfl)⟩
    · next last heq' =>
      rw [heq'] at hentered
      exact (hentered.sound.led (houtcome.answer last.view)).after hentered.edited

/-! ## Other commands -/

theorem led_drop (h : session.Sound) (label : Label) : Led d session (session.drop label) := by
  unfold drop
  split
  · next f hf => exact h.led (plain_error (session.labels.plain_get _ f hf))
  · exact ⟨⟨h.store, h.labels.drop label, h.pinned⟩, .refl d _, fun _ hf => nomatch hf⟩

/-- Attaching notes keeps the store sound, and what gets pinned is there. -/
theorem keeps_takeNotes {labels : Labels} (hs : s.Sound) (hlabels : labels.Held s) (engine : Given)
    (notes : List Given) :
    (do
      let slot ← labels.look engine
      let id ← engineIn slot
      match ← fetch id with
      | .collecting _ => throw .noSuchMember
      | .reporting .. =>
        let notes ← labels.lookAll notes
        pushNotes id notes
        return (id, slot :: notes) : Act (EngineId × List Slot)).Keeps (.edits d) s
          fun opened t => ∀ slot ∈ opened.2, t.HasIn slot := by
  refine (reads_look hlabels engine).bind fun slot hslot => ?_
  refine reads_idIn.bind fun id _ => reads_fetch.bind fun e _ => ?_
  split
  · exact keeps_throw rfl
  · refine (reads_lookAll hlabels notes).bind fun notes hnotes => ?_
    refine (keeps_pushNotes hs id hnotes.hasIn).bind fun _ t (ht : Edited d _ t) _ => ?_
    exact keeps_pure (List.forall_mem_cons.mpr
      ⟨ht.hasIn hslot.2, fun slot hslot => ht.hasIn (hnotes.hasIn slot hslot)⟩)

theorem led_openNotes (h : session.Sound) (engine : Given) (notes : List Given) :
    Led d session (session.openNotes engine notes) := by
  have hkeeps := keeps_takeNotes (d := d) h.store h.labels engine notes
  have hopened := led_act h hkeeps
  unfold openNotes
  dsimp only
  split
  · next f next heq =>
    have hled : Led d session (.error f, next) := Eq.mp (congrArg (Led d session) heq) hopened
    exact ⟨hled.sound, hled.edited, fun g hg => hled.fault g (by cases hg; rfl)⟩
  · next id held next heq =>
    have hled : Led d session (.ok (id, held), next) :=
      Eq.mp (congrArg (Led d session) heq) hopened
    have hheld : ∀ slot ∈ held, next.store.HasIn slot := answer_act hkeeps heq
    exact ⟨⟨hled.sound.store, hled.sound.labels,
      List.forall_mem_append.mpr ⟨hheld, hled.sound.pinned⟩⟩, hled.edited,
      (fun _ hf => nomatch hf)⟩

theorem closeNotes_spec (h : session.Sound) (engine : EngineId) (count : Nat) (escaped : Bool) :
    (session.closeNotes engine count escaped).Sound ∧
      Edited d session.store (session.closeNotes engine count escaped).store := by
  have hpopped := led_act h (keeps_popNotes (d := d) h.store engine count)
  unfold closeNotes
  split
  · exact ⟨⟨h.store, h.labels, fun slot hslot => h.pinned slot (List.mem_of_mem_drop hslot)⟩,
      .refl d _⟩
  · exact ⟨⟨hpopped.sound.store, hpopped.sound.labels,
      fun slot hslot => hpopped.sound.pinned slot (List.mem_of_mem_drop hslot)⟩, hpopped.edited⟩

/-- The store that is left when a command has ended. -/
def settledStore (session : Session) : Store :=
  { session.store with journal := [] }.collect session.roots

theorem store_settleResult (watch : List Label) (result : Except Fault Answer × Session) :
    (settleResult watch result).1.store = result.2.settledStore := by
  obtain ⟨_ | _, _⟩ := result
  · rfl
  · rfl

theorem Sound.settle (h : session.Sound) (watch : List Label)
    (step : List Entry → List (Label × Snapshot) → Step) : (session.settle watch step).1.Sound where
  store := (h.store.of_aside (aside_annotate session.store.labelTypes [])).collect
  labels entry hentry :=
    HasIn.collect (h.labels entry hentry)
      (List.mem_append_left _ (List.mem_map.mpr ⟨entry, hentry, rfl⟩))
  pinned slot hslot := HasIn.collect (h.pinned slot hslot) (List.mem_append_right _ hslot)

theorem sound_new : Session.Sound {} where
  store := sound_initial
  labels := List.forall_mem_singleton.mpr (hasIn_some.mpr closed_initial.global)
  pinned _ h := nomatch h

/-! ## Reachable sessions -/

/-- The sessions that permitted operations and the other commands lead to. -/
inductive Reachable (d : Discipline) : Session → Prop
  | new : Reachable d {}
  | run {session : Session} {operation : Operation} (bindTo into : Given) : Reachable d session →
      operation.permitted d session.labels session.store = true →
      Reachable d (session.runOperation operation bindTo into).2
  | drop {session : Session} (label : Label) :
      Reachable d session → Reachable d (session.drop label).2
  | openNotes {session : Session} (engine : Given) (notes : List Given) :
      Reachable d session → Reachable d (session.openNotes engine notes).2
  | closeNotes {session : Session} (engine : EngineId) (count : Nat) (escaped : Bool) :
      Reachable d session → Reachable d (session.closeNotes engine count escaped)
  | settle {session : Session} (watch : List Label)
      (step : List Entry → List (Label × Snapshot) → Step) :
      Reachable d session → Reachable d (session.settle watch step).1

/-- One permitted operation, or one part of another command, leads from a session to the next. -/
inductive Follows (d : Discipline) (session : Session) : Session → Prop
  | run {operation : Operation} (bindTo into : Given) :
      operation.permitted d session.labels session.store = true →
      Follows d session (session.runOperation operation bindTo into).2
  | drop (label : Label) : Follows d session (session.drop label).2
  | openNotes (engine : Given) (notes : List Given) :
      Follows d session (session.openNotes engine notes).2
  | closeNotes (engine : EngineId) (count : Nat) (escaped : Bool) :
      Follows d session (session.closeNotes engine count escaped)
  | settle (watch : List Label) (step : List Entry → List (Label × Snapshot) → Step) :
      Follows d session (session.settle watch step).1

/-- What admissible edits and collections preserve is preserved from a session to the next, and so
is that the session is sound. -/
theorem Follows.preserves {P : Store → Prop}
    (hedit : ∀ {s : Store} {e : Edit}, s.Sound → P s → e.Admissible d s → P (e.act.run s).2)
    (hcollect : ∀ {s : Store} {roots : List Slot}, s.Sound → P s → P (s.collect roots))
    (h : Follows d session next) (hs : session.Sound) (hP : P session.store) :
    next.Sound ∧ P next.store := by
  -- all but the end of a command is made of edits
  have hedited : ∀ {t : Store}, Edited d session.store t → P t :=
    fun ht => (ht.edits.induction hedit hs.store hP).2
  cases h with
  | run bindTo into hpermitted =>
    have hled := led_runOperation hs hpermitted bindTo into
    exact ⟨hled.sound, hedited hled.edited⟩
  | drop label =>
    have hled := led_drop (d := d) hs label
    exact ⟨hled.sound, hedited hled.edited⟩
  | openNotes engine notes =>
    have hled := led_openNotes (d := d) hs engine notes
    exact ⟨hled.sound, hedited hled.edited⟩
  | closeNotes engine count escaped =>
    obtain ⟨hsound, hclosed⟩ := closeNotes_spec (d := d) hs engine count escaped
    exact ⟨hsound, hedited hclosed⟩
  | settle watch step =>
    refine ⟨hs.settle watch step, hcollect ?_ ?_⟩
    · exact hs.store.of_aside (aside_annotate _ _)
    · exact hedit (e := .annotate session.store.labelTypes []) hs.store hP trivial

/-- A property of stores that admissible edits and collections preserve holds in every reachable
session, and reachable sessions are sound. -/
theorem Reachable.induction {P : Store → Prop} (hinitial : P .initial)
    (hedit : ∀ {s : Store} {e : Edit}, s.Sound → P s → e.Admissible d s → P (e.act.run s).2)
    (hcollect : ∀ {s : Store} {roots : List Slot}, s.Sound → P s → P (s.collect roots))
    (h : Reachable d session) : session.Sound ∧ P session.store := by
  have hfollows : ∀ {session next : Session}, Follows d session next →
      session.Sound ∧ P session.store → next.Sound ∧ P next.store :=
    fun hnext ⟨hs, hP⟩ => hnext.preserves hedit hcollect hs hP
  induction h with
  | new => exact ⟨sound_new, hinitial⟩
  | run bindTo into _ hpermitted ih => exact hfollows (.run bindTo into hpermitted) ih
  | drop label _ ih => exact hfollows (.drop label) ih
  | openNotes engine notes _ ih => exact hfollows (.openNotes engine notes) ih
  | closeNotes engine count escaped _ ih => exact hfollows (.closeNotes engine count escaped) ih
  | settle watch step _ ih => exact hfollows (.settle watch step) ih

theorem Reachable.sound (h : Reachable d session) : session.Sound :=
  (h.induction (P := fun _ => True) trivial (fun _ _ _ => trivial) fun _ _ => trivial).1

/-! ## Scripts -/

mutual

/-- Whether a discipline permits all that a command does. -/
def admits (d : Discipline) (watch : List Label) (session : Session) : Command → Bool
  | .run operation _ _ => operation.permitted d session.labels session.store
  | .drop _ => true
  | .unknown _ => true
  | .withNotes engine notes body =>
    match session.openNotes engine notes with
    | (.error _, _) => true
    | (.ok _, session) => admitsUntilFault d watch session body

/-- Whether a discipline permits all that commands up to the first that faults do. -/
def admitsUntilFault (d : Discipline) (watch : List Label) (session : Session) :
    List Command → Bool
  | [] => true
  | command :: rest =>
    admits d watch session command &&
      ((session.step watch command).2.isFailed ||
        admitsUntilFault d watch (session.step watch command).1 rest)

end

/-- Whether a discipline permits all that the commands of a script do. -/
def admitsAll (d : Discipline) (watch : List Label) (session : Session) : List Command → Bool
  | [] => true
  | command :: rest =>
    admits d watch session command && admitsAll d watch (session.step watch command).1 rest

theorem Reachable.settleResult (watch : List Label) {result : Except Fault Answer × Session}
    (h : Reachable d result.2) : Reachable d (settleResult watch result).1 := by
  obtain ⟨_ | _, _⟩ := result
  · exact h.settle watch _
  · exact h.settle watch _

mutual

/-- A permitted command leads from a reachable session to another. -/
theorem reachable_step {watch : List Label} {session : Session} (h : Reachable d session) :
    ∀ command, session.admits d watch command = true →
      Reachable d (session.step watch command).1
  | .run operation bindTo into, hadmits => by
    unfold admits at hadmits
    unfold step
    exact (h.run bindTo into hadmits).settleResult watch
  | .drop label, _ => by
    unfold step
    exact (h.drop label).settleResult watch
  | .unknown name, _ => by
    unfold step
    exact h.settle watch _
  | .withNotes engine notes body, hadmits => by
    have hopened := h.openNotes engine notes
    unfold admits at hadmits
    unfold step
    split
    · next heq =>
      rw [heq] at hopened
      exact hopened.settle watch _
    · next id count next heq =>
      rw [heq] at hopened hadmits
      exact ((reachable_runUntilFault hopened body hadmits).closeNotes id count _).settle watch _

/-- Permitted commands up to the first that faults lead from a reachable session to another. -/
theorem reachable_runUntilFault {watch : List Label} {session : Session} (h : Reachable d session) :
    ∀ commands, session.admitsUntilFault d watch commands = true →
      Reachable d (session.runUntilFault watch commands).1
  | [], _ => by
    unfold runUntilFault
    exact h
  | command :: rest, hadmits => by
    unfold admitsUntilFault at hadmits
    obtain ⟨hfirst, hrest⟩ := Bool.and_eq_true_iff.mp hadmits
    have hstep := reachable_step h command hfirst
    unfold runUntilFault
    dsimp only
    split
    · exact hstep
    · next hfailed =>
      rw [Bool.eq_false_iff.mpr hfailed, Bool.false_or] at hrest
      exact reachable_runUntilFault hstep rest hrest

end

/-- The sessions that the commands of a permitted script lead to are reachable. -/
theorem reachable_runAll {watch : List Label} {session : Session} (h : Reachable d session)
    {commands : List Command} (hadmits : session.admitsAll d watch commands = true) :
    Reachable d (session.runAll watch commands).1 := by
  induction commands generalizing session with
  | nil => exact h
  | cons command rest ih =>
    unfold admitsAll at hadmits
    obtain ⟨hfirst, hrest⟩ := Bool.and_eq_true_iff.mp hadmits
    exact ih (reachable_step h command hfirst) hrest

end Session

end SsaDebugInfo.Script
