import SsaDebugInfo.Proofs.Records.Rules
import SsaDebugInfo.Proofs.Script.Allowed

/-!
# Scripts that keep to a rule

An operation keeps to a rule if the placements that it leads to are allowed, and what it renames or
moves may be renamed or moved (`Operation.follows`); then it preserves what the rule upholds,
whether it answers or faults.

- `Change.placement?`, `enterPlacement?`: the placements that operations ask for.
- `Session.ReachableBy.upheld`: what a rule upholds holds in every session that is reached by it.
-/

namespace SsaDebugInfo

namespace Script

open Act Store

variable {rule : Rule} {P : Store → Prop} {s t : Store} {labels : Labels}

/-! ## What a rule asks of operations -/

/-- What is given; nothing if the label is not bound. -/
def Labels.given (labels : Labels) (given : Given) : Slot :=
  match labels.get given with
  | .ok slot => slot
  | .error _ => none

/-- The placement that a change of lists leads to, if it finds what it works on. -/
def Change.placement? (labels : Labels) (s : Store) : Change → Option Placement
  | .setArguments function arguments => do
    return .setArguments (← (labels.given function).id? .function) (arguments.map labels.given)
  | .addBlock function block => do
    return .addBlock (← (labels.given function).id? .function) (← (labels.given block).value?)
  | .append block instruction => do
    let (x, _) ← s.instructionIn? (labels.given instruction)
    return .append (← s.blockIn? (labels.given block)) x
  | .insert block instruction before => do
    let (x, _) ← s.instructionIn? (labels.given instruction)
    return .insertBefore (← s.blockIn? (labels.given block)) x (labels.given before)
  | .blockInsertAfter block instruction after => do
    let (x, _) ← s.instructionIn? (labels.given instruction)
    return .insertAfter (← s.blockIn? (labels.given block)) x (labels.given after)
  | .setInstructions block instructions => do
    return .setInstructions (← s.blockIn? (labels.given block)) (instructions.map labels.given)
  | _ => none

/-- Whether a rule allows what an operation places, moves and renames. -/
def Operation.follows (rule : Rule) (labels : Labels) (s : Store) : Operation → Bool
  | .change (.setName object _) => (labels.given object).value?.all (rule.rename s)
  | .change (.insertAfter instruction after) =>
    match s.instructionIn? (labels.given instruction), (labels.given after).value? with
    | some (x, _), some target => rule.move s x target
    | _, _ => true
  | .change what => (what.placement? labels s).all (rule.place s)
  | .make (.function _ _ arguments _ _) => rule.arguments s (arguments.map labels.given)
  | .make (.block _ instructions) => rule.instructions s (instructions.map labels.given)
  | .records (.migrate old new) =>
    match (findRecord (labels.given old)).run s, (labels.given new).value? with
    | (.ok (some r), t), some target => rule.move t r target
    | _, _ => true
  | _ => true

/-- The placement by which what has been made enters a block or a function. -/
def enterPlacement? (s : Store) (container made : Slot) : Option Placement :=
  match s.instructionIn? made, s.blockIn? made with
  | some (x, _), _ => (s.blockIn? container).map (.append · x)
  | _, some b => (container.id? .function).map (.addBlock · b)
  | _, _ => none

/-- Whether a rule allows an operation, and the placement by which what it has made enters a block
or a function, and no excepted fault comes of it. -/
def Session.follows (rule : Rule) (session : Session) (operation : Operation)
    (bindTo into : Given) : Bool :=
  operation.follows rule session.labels session.store &&
    (match session.act (operation.perform session.labels) with
      | (.error _, _) => true
      | (.ok outcome, next) =>
        let labels := (next.bindMade bindTo outcome).labels
        (enterPlacement? next.store (labels.given into) (outcome.made.getD none)).all
          (rule.place next.store)) &&
    match (session.runOperation operation bindTo into).1 with
      | .error f => !rule.lost f
      | .ok _ => true

/-! ## What is given -/

theorem Labels.given_eq {given : Given} {slot : Slot} (h : labels.get given = .ok slot) :
    labels.given given = slot := by
  unfold Labels.given
  rw [h]

theorem Labels.Give.map_given {given : List Given} {slots : List Slot}
    (h : labels.Give s given slots) : given.map labels.given = slots := by
  induction h with
  | nil => rfl
  | cons hslot _ ih => rw [List.map_cons, Labels.given_eq hslot.1, ih]

theorem reads_blockIn? (slot : Slot) :
    (blockIn slot).Reads s fun b => s.blockIn? slot = some b :=
  reads_blockIn.mono fun _ hb => Store.blockIn?_eq_some.mpr hb

theorem reads_blockOrClash? (slot : Slot) (clashes : Opcode → Bool) :
    (blockOrClash slot clashes).Reads s fun b => s.blockIn? slot = some b := by
  refine reads_get.bind_reads ?_
  rintro _ rfl
  split
  · split
    · exact reads_throw rfl
    · exact reads_throw rfl
  · exact reads_blockIn? slot

theorem Change.place_of_follows {what : Change}
    (hfollows : (Operation.change what).follows rule labels s = true) {p : Placement}
    (hp : what.placement? labels s = some p) : rule.place s p = true := by
  have hplacement : what.placement? labels s = some p →
      (what.placement? labels s).all (rule.place s) = true := by
    intro hp
    cases what with
    | setName => cases hp
    | insertAfter => cases hp
    | _ => exact hfollows
  have hall := hplacement hp
  rwa [hp] at hall

end Script

/-! ## Changes by a rule -/

namespace Rule.Yields

open Act Store Script

variable {rule : Rule} {start P : Store → Prop} {s t : Store} {labels : Labels}
  (h : rule.Yields start P)

include h

/-- An instruction enters a block by a placement that is allowed. -/
theorem ends_entering (hs : P s) {block instruction : Slot} {get : Act ValueId}
    (placement : ValueId → ValueId → Placement) {outcome : Outcome}
    (hget : get.Reads s fun b => s.blockIn? block = some b)
    (hneeds : ∀ b x, (placement b x).needs = [.ofValue b, .ofValue x])
    (hallowed : ∀ b x i, s.blockIn? block = some b → s.instructionIn? instruction = some (x, i) →
      rule.place s (placement b x) = true) :
    (do
      let id ← get
      (placement id (← requireInstruction instruction)).act
      return outcome : Act Outcome).Ends s (fun _ t => P t) (rule.orElse P) := by
  refine Reads.bind_ends hget (fault hs) fun b hb => ?_
  refine Reads.bind_ends reads_requireInstruction (fault hs) fun x hx => ?_
  obtain ⟨rfl, v, i, hv, hi⟩ := hx
  have hx : s.instructionIn? (.ofValue x) = some (x, i) :=
    Store.instructionIn?_eq_some.mpr ⟨rfl, v, hv, hi⟩
  obtain ⟨_, w, hw, _⟩ := Store.blockIn?_eq_some.mp hb
  refine (h.place hs _ ?_ (hallowed b x i hb hx)).bind fun _ t ht => ends_pure ht
  rw [hneeds]
  exact List.forall_mem_cons.mpr ⟨hasIn_some.mpr (has_value_iff.mpr ⟨w, hw⟩),
    List.forall_mem_singleton.mpr (hasIn_some.mpr (has_value_iff.mpr ⟨v, hv⟩))⟩

/-- Another name says nothing but the name. -/
theorem ends_rename (hs : P s) (slot : Slot) (name : String)
    (hallowed : ∀ v, slot = .ofValue v → rule.rename s v = true) :
    (Script.rename slot name).Ends s (fun _ t => P t) (rule.orElse P) := by
  have hsound : ((Script.rename slot name).run s).2.Sound :=
    (keeps_rename (d := {}) (h.sound hs) slot name).change.sound (h.sound hs)
  refine ends_of_run ?_
  revert hsound
  unfold Script.rename
  split
  · exact fun _ => hs
  · next v =>
    refine h.rename hs (hallowed v rfl) name ?_
    exact .modify_value (fun o => o.standing_mapGlobal _) (fun o => o.site?_mapGlobal _)
      fun o => o.form?_mapGlobal _
  · exact h.unmoved hs (.modify_function (fun _ => rfl) fun _ => rfl)
  · next m =>
    have hmodule : s.Unmoved (s.modify m fun m => { m with name }) := .modify fun _ _ => trivial
    exact h.unmoved hs hmodule
  · next n =>
    have hnode : ∀ f : Node → Node, s.Unmoved (s.modify n f) := fun f =>
      .modify fun _ _ _ _ => .inr trivial
    exact h.unmoved hs (hnode _)
  · exact fun _ => hs

omit h in
/-- What a change leaves to be told does not matter. -/
theorem ends_answering {act : Act Unit} {outcome : Outcome}
    (hact : act.Ends s (fun _ t => P t) (rule.orElse P)) :
    (do act; return outcome : Act Outcome).Ends s (fun _ t => P t) (rule.orElse P) :=
  hact.bind fun _ _ ht => ends_pure ht

/-- The placement that a change by a rule leads to is made. -/
theorem ends_placing (hs : P s) {what : Change}
    (hfollows : (Operation.change what).follows rule labels s = true) (placement : Placement)
    {outcome : Outcome} (hplacement : what.placement? labels s = some placement)
    (hneeds : ∀ slot ∈ placement.needs, s.HasIn slot) :
    (do placement.act; return outcome : Act Outcome).Ends s (fun _ t => P t) (rule.orElse P) :=
  ends_answering (h.place hs placement hneeds (Change.place_of_follows hfollows hplacement))

theorem ends_setArguments (hs : P s) (hlabels : labels.Held s) {function : Given}
    {arguments : List Given}
    (hfollows : (Operation.change (.setArguments function arguments)).follows rule labels
      s = true) :
    (performChange labels (.setArguments function arguments)).Ends s (fun _ t => P t)
      (rule.orElse P) := by
  refine Reads.bind_ends (reads_lookIn hlabels function fun _ => reads_idIn) (fault hs)
    fun f ⟨slot, hget, hslot, hf⟩ => ?_
  subst hf
  refine Reads.bind_ends (reads_lookAll hlabels arguments) (fault hs) fun slots hslots => ?_
  refine h.ends_placing hs hfollows (.setArguments f slots) ?_
    (List.forall_mem_cons.mpr ⟨hslot, hslots.hasIn⟩)
  rw [Change.placement?, Labels.given_eq hget, hslots.map_given]
  rfl

theorem ends_addBlock (hs : P s) (hlabels : labels.Held s) {function block : Given}
    (hfollows : (Operation.change (.addBlock function block)).follows rule labels s = true) :
    (performChange labels (.addBlock function block)).Ends s (fun _ t => P t) (rule.orElse P) := by
  refine Reads.bind_ends (reads_look hlabels function) (fault hs) fun slot hslot => ?_
  refine Reads.bind_ends (reads_look hlabels block) (fault hs) fun slot' hslot' => ?_
  refine Reads.bind_ends reads_idIn (fault hs) fun f hf => ?_
  refine Reads.bind_ends reads_valueIn (fault hs) fun b hb => ?_
  obtain ⟨rfl, v, hv⟩ := hb
  subst hf
  refine h.ends_placing hs hfollows (.addBlock f b) ?_
    (List.forall_mem_cons.mpr ⟨hslot.2, List.forall_mem_singleton.mpr hslot'.2⟩)
  rw [Change.placement?, Labels.given_eq hslot.1, Labels.given_eq hslot'.1]
  rfl

/-- A name is changed if the rule lets the value be renamed. -/
theorem ends_setName (hs : P s) (hlabels : labels.Held s) {object : Given} {name : String}
    (hfollows : (Operation.change (.setName object name)).follows rule labels s = true) :
    (performChange labels (.setName object name)).Ends s (fun _ t => P t) (rule.orElse P) := by
  refine Reads.bind_ends (reads_look hlabels object) (fault hs) fun slot hslot => ?_
  refine ends_answering (h.ends_rename hs slot name fun v hv => ?_)
  have hall : (labels.given object).value?.all (rule.rename s) = true := hfollows
  rwa [Labels.given_eq hslot.1, hv] at hall

theorem ends_append (hs : P s) (hlabels : labels.Held s) {block instruction : Given}
    (hfollows : (Operation.change (.append block instruction)).follows rule labels s = true) :
    (performChange labels (.append block instruction)).Ends s (fun _ t => P t)
      (rule.orElse P) := by
  refine Reads.bind_ends (reads_look hlabels block) (fault hs) fun slot hslot => ?_
  refine Reads.bind_ends (reads_look hlabels instruction) (fault hs) fun slot' hslot' => ?_
  refine h.ends_entering hs .append (reads_blockIn? slot) (fun _ _ => rfl)
    fun b x i hb hx => Change.place_of_follows hfollows ?_
  rw [Change.placement?, Labels.given_eq hslot.1, Labels.given_eq hslot'.1, hb, hx]
  rfl

theorem ends_insert (hs : P s) (hlabels : labels.Held s) {block instruction before : Given}
    (hfollows : (Operation.change (.insert block instruction before)).follows rule labels
      s = true) :
    (performChange labels (.insert block instruction before)).Ends s (fun _ t => P t)
      (rule.orElse P) := by
  refine Reads.bind_ends (reads_look hlabels block) (fault hs) fun slot hslot => ?_
  refine Reads.bind_ends (reads_look hlabels instruction) (fault hs) fun slot' hslot' => ?_
  refine Reads.bind_ends (reads_look hlabels before) (fault hs) fun anchor hanchor => ?_
  refine h.ends_entering hs (fun b x => .insertBefore b x anchor) (reads_blockIn? slot)
    (fun _ _ => rfl) fun b x i hb hx => Change.place_of_follows hfollows ?_
  rw [Change.placement?, Labels.given_eq hslot.1, Labels.given_eq hslot'.1,
    Labels.given_eq hanchor.1, hb, hx]
  rfl

theorem ends_blockInsertAfter (hs : P s) (hlabels : labels.Held s)
    {block instruction after : Given}
    (hfollows : (Operation.change (.blockInsertAfter block instruction after)).follows rule labels
      s = true) :
    (performChange labels (.blockInsertAfter block instruction after)).Ends s (fun _ t => P t)
      (rule.orElse P) := by
  refine Reads.bind_ends (reads_look hlabels block) (fault hs) fun slot hslot => ?_
  refine Reads.bind_ends (reads_look hlabels instruction) (fault hs) fun slot' hslot' => ?_
  refine Reads.bind_ends (reads_look hlabels after) (fault hs) fun anchor hanchor => ?_
  refine h.ends_entering hs (fun b x => .insertAfter b x anchor)
    (reads_blockOrClash? slot _) (fun _ _ => rfl)
    fun b x i hb hx => Change.place_of_follows hfollows ?_
  rw [Change.placement?, Labels.given_eq hslot.1, Labels.given_eq hslot'.1,
    Labels.given_eq hanchor.1, hb, hx]
  rfl

/-- An instruction is placed behind another if the rule lets it move there. -/
theorem ends_insertAfter (hs : P s) (hlabels : labels.Held s) {instruction after : Given}
    (hfollows : (Operation.change (.insertAfter instruction after)).follows rule labels s = true) :
    (performChange labels (.insertAfter instruction after)).Ends s (fun _ t => P t)
      (rule.orElse P) := by
  refine Reads.bind_ends (reads_look hlabels instruction) (fault hs) fun slot hslot => ?_
  refine Reads.bind_ends (reads_look hlabels after) (fault hs) fun slot' hslot' => ?_
  refine Reads.bind_ends reads_get (fault hs) ?_
  rintro s rfl
  dsimp only
  split
  · exact ends_throw (fault hs _)
  · refine Reads.bind_ends reads_instructionIn (fault hs) fun x ⟨hx, v, i, hv, hi⟩ => ?_
    refine ends_answering (h.ends_placeAfter hs (formOf?_eq_instruction.mpr ⟨v, i, hv, hi⟩) slot'
      fun target ht => ?_)
    have hin : s.instructionIn? slot = some (x, i) :=
      Store.instructionIn?_eq_some.mpr ⟨hx, v, hv, hi⟩
    simp only [Operation.follows, Labels.given_eq hslot.1, Labels.given_eq hslot'.1, hin, ht]
      at hfollows
    exact hfollows

/-- Taking an instruction out of a block is left to no rule, but more may have to hold where it
starts. -/
theorem ends_remove (hstart : start s) (hlabels : labels.Held s) (block instruction : Given) :
    (performChange labels (.remove block instruction)).Ends s (fun _ t => P t)
      (rule.orElse P) := by
  have hs := h.enough hstart
  refine Reads.bind_ends (reads_look hlabels block) (fault hs) fun slot _ => ?_
  refine Reads.bind_ends (reads_look hlabels instruction) (fault hs) fun slot' _ => ?_
  refine Reads.bind_ends reads_blockIn (fault hs) fun b _ => ends_answering ?_
  exact (h.removeFrom hstart b slot').mono (fun _ _ ht => h.enough ht.1) fun _ _ hf => hf

theorem ends_setInstructions (hs : P s) (hlabels : labels.Held s) {block : Given}
    {instructions : List Given}
    (hfollows : (Operation.change (.setInstructions block instructions)).follows rule labels
      s = true) :
    (performChange labels (.setInstructions block instructions)).Ends s (fun _ t => P t)
      (rule.orElse P) := by
  refine Reads.bind_ends (reads_look hlabels block) (fault hs) fun slot hslot => ?_
  refine Reads.bind_ends (reads_lookAll hlabels instructions) (fault hs) fun slots hslots => ?_
  refine Reads.bind_ends reads_blockIn (fault hs) fun b hb => ?_
  refine h.ends_placing hs hfollows (.setInstructions b slots) ?_
    (List.forall_mem_cons.mpr ⟨hb.1 ▸ hslot.2, hslots.hasIn⟩)
  rw [Change.placement?, Labels.given_eq hslot.1, hslots.map_given,
    Store.blockIn?_eq_some.mpr hb]
  rfl

/-- A change by a rule preserves what the rule upholds: changes that rearrange nothing whatever the
rule says, the others because it allows their placements. -/
theorem ends_performChange (hstart : start s) (hlabels : labels.Held s) {what : Change}
    (hfollows : (Operation.change what).follows rule labels s = true) :
    (performChange labels what).Ends s (fun _ t => P t) (rule.orElse P) := by
  have hs := h.enough hstart
  cases hrearranges : what.rearranges with
  | false =>
    have hkeeps := keeps_performChange (h.sound hs) hlabels
      (Operation.permitted_default (.change what) _ _)
    have hstill : ((Operation.change what).perform labels).Only Unmoved :=
      Operation.still_perform hrearranges
    exact (h.still hs hstill hkeeps).mono (fun _ _ h => h.1) fun _ _ hf => hf
  | true =>
  cases what with
  | setArguments => exact h.ends_setArguments hs hlabels hfollows
  | addBlock => exact h.ends_addBlock hs hlabels hfollows
  | setName => exact h.ends_setName hs hlabels hfollows
  | append => exact h.ends_append hs hlabels hfollows
  | insert => exact h.ends_insert hs hlabels hfollows
  | blockInsertAfter => exact h.ends_blockInsertAfter hs hlabels hfollows
  | insertAfter => exact h.ends_insertAfter hs hlabels hfollows
  | remove block instruction => exact h.ends_remove hstart hlabels block instruction
  | removeFromParent instruction =>
    refine ends_answering (Reads.bind_ends (reads_lookIn hlabels instruction
      fun _ => reads_instructionIn) (fault hs) fun x _ => ?_)
    exact (h.ends_removeFromParent hstart x).mono (fun _ _ ht => h.enough ht.1) fun _ _ hf => hf
  | erase instruction =>
    refine ends_answering (Reads.bind_ends (reads_lookIn hlabels instruction
      fun _ => reads_instructionIn) (fault hs) fun x ⟨_, _, _, _, v, i, hv, hi⟩ => ?_)
    exact h.ends_erase hstart (formOf?_eq_instruction.mpr ⟨v, i, hv, hi⟩)
  | setInstructions => exact h.ends_setInstructions hs hlabels hfollows
  | _ => cases hrearranges

/-! ## Other operations by a rule -/

/-- A function is made with arguments that the rule lets a function have. -/
theorem ends_performMake_function (hs : P s) (hlabels : labels.Held s) {name : String}
    {result : Ty} {arguments : List Given} {subprogram context : Given}
    (hfollows : (Operation.make (.function name result arguments subprogram context)).follows rule
      labels s = true) :
    (performMake labels (.function name result arguments subprogram context)).Ends s
      (fun _ t => P t) (rule.orElse P) := by
  refine Reads.bind_ends (reads_lookAll hlabels arguments) (fault hs) fun slots hslots => ?_
  have hallowed : rule.arguments s (arguments.map labels.given) = true := hfollows
  rw [hslots.map_given] at hallowed
  refine (h.still hs (touches_formType _).still
    (keeps_formType (h.sound hs) result)).bind fun result t ⟨ht, hst, _⟩ => ?_
  have hlabels' := hlabels.extends hst.toExtends
  refine Reads.bind_ends (reads_look hlabels' subprogram) (fault ht) fun slot hslot => ?_
  refine Reads.bind_ends (reads_lookContext hlabels' context) (fault ht) fun c hc => ?_
  exact (h.ends_makeFunction hst ht name result hslot.2 hc hslots.hasIn hallowed).bind
    fun _ u hu => ends_pure hu

omit h in
/-- A value that has been made is all that is told of it. -/
theorem ends_creating {act : Act ValueId} (hact : act.Ends s (fun _ t => P t) (rule.orElse P)) :
    (do return .creation (.value (← act)) : Act Outcome).Ends s (fun _ t => P t)
      (rule.orElse P) :=
  hact.bind fun _ _ ht => ends_pure ht

theorem ends_performMake_block (hs : P s) (hlabels : labels.Held s) {name : String}
    {instructions : List Given}
    (hfollows : (Operation.make (.block name instructions)).follows rule labels s = true) :
    (performMake labels (.block name instructions)).Ends s (fun _ t => P t) (rule.orElse P) := by
  refine Reads.bind_ends (reads_lookAll hlabels instructions) (fault hs) fun slots hslots => ?_
  refine ends_creating (h.ends_makeBlock hs name hslots.hasIn ?_)
  rw [← hslots.map_given]
  exact hfollows

/-- A record that is made beside an instruction is new, and so may go there. -/
theorem ends_performMake_bind (hs : P s) (hlabels : labels.Held s)
    (value var expression loc : Given) (offset : Int) (before after : Given) :
    (performMake labels (.bind value var expression loc offset (.beside before after))).Ends s
      (fun _ t => P t) (rule.orElse P) := by
  refine Reads.bind_ends (reads_look hlabels value) (fault hs) fun value _ => ?_
  refine Reads.bind_ends (reads_look hlabels var) (fault hs) fun var hvar => ?_
  refine Reads.bind_ends (reads_look hlabels expression) (fault hs) fun expression hexpr => ?_
  refine Reads.bind_ends (reads_look hlabels loc) (fault hs) fun loc hloc => ?_
  refine Reads.bind_ends (reads_look hlabels before) (fault hs) fun before _ => ?_
  refine Reads.bind_ends (reads_look hlabels after) (fault hs) fun after _ => ?_
  exact ends_creating (h.ends_bindValue hs value _ hvar.2 hexpr.2 hloc.2 before after)

/-- The record that the finder yields may move to the target. -/
theorem ends_performRecords_migrate (hstart : start s) (hlabels : labels.Held s) {old new : Given}
    (hfollows : (Operation.records (.migrate old new)).follows rule labels s = true) :
    (performRecords labels (.migrate old new)).Ends s (fun _ t => P t) (rule.orElse P) := by
  have hs := h.enough hstart
  refine Reads.bind_ends (reads_look hlabels old) (fault hs) fun slot hslot => ?_
  refine Reads.bind_ends (reads_look hlabels new) (fault hs) fun slot' hslot' => ?_
  refine Ends.bind (h.ends_migrate hstart slot slot' fun r t v hfind hv => ?_)
    fun _ t ht => ends_pure ht
  simp only [Operation.follows, Labels.given_eq hslot.1, Labels.given_eq hslot'.1, hfind, hv]
    at hfollows
  exact hfollows

/-- An operation by a rule preserves what the rule upholds. -/
theorem ends_perform (hstart : start s) (hlabels : labels.Held s) {operation : Operation}
    (hfollows : operation.follows rule labels s = true) :
    (operation.perform labels).Ends s (fun _ t => P t) (rule.orElse P) := by
  have hs := h.enough hstart
  cases hrearranges : operation.rearranges with
  | false =>
    have hkeeps := operation.keeps_perform (h.sound hs) hlabels (operation.permitted_default _ _)
    exact (h.still hs (Operation.still_perform hrearranges) hkeeps).mono (fun _ _ h => h.1)
      fun _ _ hf => hf
  | true =>
  cases operation with
  | change what => exact h.ends_performChange hstart hlabels hfollows
  | make value =>
    cases value with
    | function => exact h.ends_performMake_function hs hlabels hfollows
    | block => exact h.ends_performMake_block hs hlabels hfollows
    | bind value var expression loc offset place =>
      cases place with
      | detached => cases hrearranges
      | beside before after =>
        exact h.ends_performMake_bind hs hlabels value var expression loc offset before after
    | _ => cases hrearranges
  | records operation =>
    cases operation with
    | migrate => exact h.ends_performRecords_migrate hstart hlabels hfollows
    | scatter value =>
      refine Ends.bind (Reads.bind_ends (reads_look hlabels value) (fault hs) fun slot _ =>
        h.ends_scatter hs slot) fun _ t ht => ends_pure ht
    | _ => cases hrearranges
  | _ => cases hrearranges

/-- Entering a block or a function by a placement that is allowed. -/
theorem ends_enter (hs : P s) {container made : Slot} (hcontainer : s.HasIn container)
    (hmade : s.HasIn made)
    (hallowed : ∀ p, enterPlacement? s container made = some p → rule.place s p = true) :
    (Session.enter container made).Ends s (fun _ t => P t) (rule.orElse P) := by
  refine Reads.bind_ends reads_get (fault hs) ?_
  rintro s rfl
  have hneeds : ∀ {slot : Slot}, s.HasIn slot → ∀ o ∈ [slot, made], s.HasIn o := fun hslot =>
    List.forall_mem_cons.mpr ⟨hslot, List.forall_mem_singleton.mpr hmade⟩
  cases hx : s.instructionIn? made with
  | some found =>
    obtain ⟨x, i⟩ := found
    obtain ⟨rfl, _⟩ := Store.instructionIn?_eq_some.mp hx
    refine Reads.bind_ends (reads_blockIn? container) (fault hs) fun b hb => ?_
    refine h.place hs (.append b x) (hneeds ?_) (hallowed _ ?_)
    · exact (Store.blockIn?_eq_some.mp hb).1 ▸ hcontainer
    · rw [enterPlacement?, hx, hb]
      rfl
  | none =>
    cases hb : s.blockIn? made with
    | some b =>
      obtain ⟨rfl, _⟩ := Store.blockIn?_eq_some.mp hb
      refine Reads.bind_ends reads_idIn (fault hs) fun f hf => ?_
      refine h.place hs (.addBlock f b) (hneeds (hf ▸ hcontainer)) (hallowed _ ?_)
      rw [enterPlacement?, hx, hb, hf]
      rfl
    | none => exact ends_pure hs

/-- An operation by a rule preserves what the rule upholds, whether it answers or faults. -/
theorem holds_after {session : Session} (hs : session.Sound) (hstart : start session.store)
    {operation : Operation} {bindTo into : Given}
    (hfollows : session.follows rule operation bindTo into = true) :
    P (session.runOperation operation bindTo into).2.store := by
  unfold Session.follows at hfollows
  rw [Bool.and_eq_true, Bool.and_eq_true] at hfollows
  obtain ⟨⟨hperform, henter⟩, hfault⟩ := hfollows
  have hends := h.ends_perform hstart hs.labels hperform
  -- an operation can end in three ways; a fault that the rule gives up on is excluded
  refine Session.runOperation_ends (fun f => rule.lost f = true)
    (hends.mono (fun _ _ ht => ht) fun f t hf hlost => ?_) ?_ ?_
  · exact hf (Bool.eq_false_iff.mpr hlost)
  · intro outcome next hact hnext
    rw [hact] at henter
    have hkeeps := operation.keeps_perform hs.store hs.labels (operation.permitted_default _ _)
    have hled := Session.led_act hs hkeeps
    have houtcome := Session.answer_act hkeeps hact
    rw [hact] at hled
    have hbound : (next.bindMade bindTo outcome).Sound := hled.sound.bindMade bindTo houtcome
    have hlabels := hbound.labels
    rw [Session.store_bindMade] at hlabels
    have hmade : next.store.HasIn (outcome.made.getD none) := by
      cases hmade : outcome.made with
      | none => exact hasIn_none
      | some slot => exact houtcome.made slot hmade
    have hlost : ∀ f t, rule.orElse P f t → ¬ rule.lost f = true → P t := fun f t hf hlost =>
      hf (Bool.eq_false_iff.mpr hlost)
    unfold Session.entering
    split
    · refine Ends.mono ?_ (fun _ _ ht => ht) hlost
      refine Reads.bind_ends (reads_look hlabels into) (fault hnext) fun container hcontainer => ?_
      refine h.ends_enter hnext hcontainer.2 hmade fun p hp => ?_
      rw [← Labels.given_eq hcontainer.1] at hp
      dsimp only at henter
      rwa [hp] at henter
    · exact ends_pure hnext
  · intro f hf hlost
    rw [hf] at hfault
    dsimp only at hfault
    rw [hlost] at hfault
    cases hfault

end Rule.Yields

/-- What a rule upholds holds in every session that is reached by the rule. -/
theorem Script.Session.ReachableBy.upheld {rule : Rule} {P : Store → Prop}
    {session : Script.Session} (hreachable : ReachableBy (follows rule) session)
    (h : rule.Upholds P) : P session.store :=
  hreachable.induction h.initial (fun hs hP hfollows => h.toYields.holds_after hs hP hfollows)
    (fun hst ht hs => h.unmoved hs hst ht) fun _ hs => h.collect hs _

end SsaDebugInfo
