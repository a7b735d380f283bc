import SsaDebugInfo.Proofs.Ir.Build
import SsaDebugInfo.Proofs.Modules
import SsaDebugInfo.Proofs.Script.Permitted
import SsaDebugInfo.Script.Perform.Change

/-!
# Operations that change things

Changes of names, locations, bindings, operands and places are admissible edits. Where the operands
of a user change, the discipline has a say: a record takes new ones from the debug operations alone.

- `keeps_erase`: an erased instruction leaves its block and gives up its operands.
- `keeps_entering`: an instruction enters a block, in whichever way.
- `keeps_performChange`: every permitted change, by a lemma for each.
-/

namespace SsaDebugInfo.Script

open Act Store Outcome

variable {d : Discipline} {s t : Store} {labels : Labels}

theorem reads_userIn {slot : Slot} :
    (userIn slot).Reads s fun id => slot = .ofValue id ∧ s.IsUser id := by
  refine reads_valueIn.bind_reads fun id hid => reads_fetch.bind_reads fun v hv => ?_
  split
  · next huser => exact reads_pure ⟨hid.1, v, hv, huser⟩
  · exact reads_throw rfl

/-- A user that no discipline of records concerns. -/
theorem isRecord_of_permitted {given : Given} {user : ValueId}
    (hget : labels.get given = .ok (.ofValue user)) (h : labels.givesRecord s given = false) :
    s.isRecord user = false := by
  unfold Labels.givesRecord at h
  rw [hget] at h
  exact h

theorem keeps_rename (hs : s.Sound) (slot : Slot) (name : String) :
    (rename slot name).Keeps (.edits d) s fun _ _ => True := by
  unfold rename
  split
  · exact keeps_throw rfl
  · refine Keeps.bind (keeps_reviseEdit hs fun o ho => ?_) fun _ t (ht : Edited d s t) _ => ?_
    · refine ⟨o.revises_mapSite fun _ => rfl, Value.holdsOnly_iff.mp ?_⟩
      have hholds := hs.closed.holdsOnly ho
      refine hholds.mapSite fun site hsite f hf => hholds.function f ?_
      rw [Value.function?, hsite]
      exact hf
    · refine Keeps.any (keeps_reviseEdit (ht.sound hs) fun o ho => ?_)
      refine ⟨o.revises_mapGlobal _, Value.holdsOnly_iff.mp ?_⟩
      have hholds := (ht.sound hs).closed.holdsOnly ho
      exact hholds.mapGlobal (fun g hg => hholds.initializer g hg) fun g hg m hm =>
        hholds.module g hg m hm
  · refine Keeps.any (keeps_reviseEdit hs fun o ho => ⟨⟨rfl, rfl, rfl, rfl, fun _ h => h⟩, ?_⟩)
    exact Function.holdsOnly_iff.mp { hs.closed.function ho with }
  · exact keeps_reviseModule hs fun o ho => { hs.closed.module ho with }
  · refine Keeps.any (keeps_reviseEdit hs fun o ho => ?_)
    have hheld := hs.closed.held _ ho
    cases o with
    | subprogram => exact ⟨rfl, hheld⟩
    | localVariable => exact ⟨rfl, hheld⟩
    | globalVariable => exact ⟨rfl, hheld⟩
    | _ => exact ⟨rfl, hheld⟩
  · exact keeps_pure trivial

theorem keeps_changeInstruction (hs : s.Sound) (slot : Slot) {f : Instruction → Instruction}
    (hblock : ∀ i, (f i).block = i.block)
    (hdebug : ∀ i, (f i).opcode.isDebugValue = i.opcode.isDebugValue)
    (hloc : ∀ i, s.HasIn i.loc → s.HasIn (f i).loc)
    (hbinding : ∀ i, (∀ b, i.opcode.binding? = some b → s.HasIn b.var ∧ s.HasIn b.expression) →
      ∀ b, (f i).opcode.binding? = some b → s.HasIn b.var ∧ s.HasIn b.expression) :
    (changeInstruction slot f).Keeps (.edits d) s fun _ _ => True := by
  unfold changeInstruction
  split
  · exact keeps_throw rfl
  · exact (keeps_reviseInstruction hs hblock hdebug hloc hbinding).any
  · exact keeps_pure trivial

theorem keeps_changeBinding (hs : s.Sound) (slot : Slot) {f : Binding → Binding}
    (hf : ∀ b, s.HasIn b.var ∧ s.HasIn b.expression →
      s.HasIn (f b).var ∧ s.HasIn (f b).expression) :
    (changeBinding slot f).Keeps (.edits d) s fun _ _ => True := by
  refine keeps_changeInstruction hs slot (fun i => ?_) (fun i => ?_) (fun i hloc => ?_)
    fun i hheld b hb => ?_
  · split
    · rfl
    · rfl
  · split
    · next hopcode => rw [hopcode]; rfl
    · rfl
  · split
    · exact hloc
    · exact hloc
  · split at hb
    · next binding hopcode =>
      cases hb
      exact hf binding (hheld binding (by rw [hopcode]; rfl))
    · exact hheld b hb

theorem reads_blockOrClash {slot : Slot} {clashes : Opcode → Bool} :
    (blockOrClash slot clashes).Reads s fun id => slot = .ofValue id ∧ s.Has (.value id) := by
  refine reads_get.bind_reads fun t ht => ?_
  subst ht
  split
  · split
    · exact reads_throw rfl
    · exact reads_throw rfl
  · exact reads_blockIn.mono fun id ⟨hid, v, hv, _⟩ => ⟨hid, has_value_iff.mpr ⟨v, hv⟩⟩

theorem keeps_setOperandsOf (hs : s.Sound) {user : ValueId} (huser : s.IsUser user)
    {operands : List Slot} (hfits : d.Fits s (s.isRecord user) operands)
    (hfrees : d.steady = true → s.isRecord user = false) :
    (setOperands user operands).Keeps (.edits d) s fun _ _ => True :=
  have hedit : (Edit.setOperands user operands).act.Keeps (.edits d) s _ :=
    keeps_edit hs ⟨huser, hfits, .of_not_record hfrees⟩
  hedit.any

/-- Erasing an instruction: it leaves its block, then the uses of its operands. -/
theorem keeps_erase (hs : s.Sound) {id : ValueId} {v : Value} {i : Instruction}
    (hv : s.get? id = some v) (hi : v.instruction? = some i)
    (hfrees : d.steady = true → s.isRecord id = false) :
    (erase id).Keeps (.edits d) s fun _ _ => True := by
  -- taking it out of its block leaves it the instruction that it is, record or not
  have hremove : (removeFromParent id).Keeps (.placing d id) s fun _ t =>
      t.IsUser id ∧ t.isRecord id = s.isRecord id := by
    refine (keeps_placing_removeFromParent hs).mono fun _ t ht _ => ?_
    obtain ⟨w, hw, hcarries⟩ := Moves.carries ht.2 hv
    obtain ⟨j, hj, _⟩ := hcarries.instruction? hi
    exact ⟨⟨w, hw, Value.isUser_of_instruction? hj⟩,
      (Moves.toAside ht.2).isRecord (has_value_iff.mpr ⟨v, hv⟩)⟩
  have hremove : (removeFromParent id).Keeps (.edits d) s _ :=
    hremove.weaken (fun _ ht => ht.1) fun _ hf => hf.1
  refine hremove.bind fun _ t (ht : Edited d s t) ⟨huser, hrecord⟩ => ?_
  refine (keeps_setOperandsOf (ht.sound hs) huser Discipline.fits_nil fun hd =>
    hrecord.trans (hfrees hd)).bind fun _ u _ _ => ?_
  exact reads_get.bind fun _ _ => reads_require.keeps.any

/-- What fits a user that is no record fits one that no discipline of records concerns. -/
theorem fits_of_not_handled {given : Given} {user : ValueId} {operands : List Slot}
    (hget : labels.get given = .ok (.ofValue user))
    (hrecord : d.records = true → labels.givesRecord s given = false)
    (hfits : d.Fits s false operands) : d.Fits s (s.isRecord user) operands where
  held := hfits.held
  value := hfits.value
  tied hd hr := by
    rw [isRecord_of_permitted hget (hrecord hd)] at hr
    cases hr

/-! ## One lemma for each change -/

/-- What a change answers does not bear on what it keeps, if that is there in every store. -/
theorem keeps_answering {act : Act Unit} (hact : act.Keeps (.edits d) s fun _ _ => True)
    {outcome : Outcome} (houtcome : ∀ t, outcome.Sound t) :
    (do act; return outcome : Act Outcome).Keeps (.edits d) s fun outcome t => outcome.Sound t :=
  hact.bind fun _ _ _ _ => keeps_pure (houtcome _)

/-- A placement is made of admissible edits if all that it needs is there. -/
theorem keeps_answering_place (hs : s.Sound) (placement : Placement)
    (hneeds : ∀ slot ∈ placement.needs, s.HasIn slot) {outcome : Outcome}
    (houtcome : ∀ t, outcome.Sound t) :
    (do placement.act; return outcome : Act Outcome).Keeps (.edits d) s
      fun outcome t => outcome.Sound t :=
  keeps_answering (keeps_place placement hs hneeds) houtcome

/-- A block and an instruction that were given are there, which is all that most placements need. -/
theorem hasIn_pair {block slot : Slot} {b i : ValueId} (hblock : s.HasIn block)
    (hslot : s.HasIn slot) (hb : block = .ofValue b) (hi : slot = .ofValue i) :
    ∀ needed ∈ [Slot.ofValue b, .ofValue i], s.HasIn needed := by
  subst hb hi
  exact List.forall_mem_cons.mpr ⟨hblock, List.forall_mem_singleton.mpr hslot⟩

/-- An instruction enters a block, in whichever way the block is looked up and the place is told. -/
theorem keeps_entering (hs : s.Sound) {block instruction : Slot} (hblock : s.HasIn block)
    (hinstruction : s.HasIn instruction) {get : Act ValueId}
    (hget : get.Reads s fun b => block = .ofValue b)
    (placement : ValueId → ValueId → Placement)
    (hneeds : ∀ b i, (placement b i).needs = [.ofValue b, .ofValue i]) :
    (do
      let id ← get
      (placement id (← requireInstruction instruction)).act
      return .object instruction : Act Outcome).Keeps (.edits d) s
        fun outcome t => outcome.Sound t := by
  refine hget.bind fun b hb => reads_requireInstruction.bind fun i hi => ?_
  refine keeps_answering_place hs (placement b i) ?_ fun _ => sound_object _
  rw [hneeds]
  exact hasIn_pair hblock hinstruction hb hi.1

theorem keeps_performChange_setArguments (hs : s.Sound) (hlabels : labels.Held s)
    (function : Given) (arguments : List Given) :
    (performChange labels (.setArguments function arguments)).Keeps (.edits d) s
      fun outcome t => outcome.Sound t := by
  refine (reads_lookIn hlabels function fun _ => reads_idIn).bind fun id hid => ?_
  refine (reads_lookAll hlabels arguments).bind fun arguments harguments => ?_
  obtain ⟨_, _, hfunction, rfl⟩ := hid
  exact keeps_answering_place hs (.setArguments id arguments)
    (List.forall_mem_cons.mpr ⟨hfunction, harguments.hasIn⟩) fun _ => sound_silent

theorem keeps_performChange_addBlock (hs : s.Sound) (hlabels : labels.Held s)
    (function block : Given) :
    (performChange labels (.addBlock function block)).Keeps (.edits d) s
      fun outcome t => outcome.Sound t := by
  refine (reads_look hlabels function).bind fun function hfunction => ?_
  refine (reads_look hlabels block).bind fun block hblock => ?_
  refine reads_idIn.bind fun f hf => reads_valueIn.bind fun b hb => ?_
  subst hf
  exact keeps_answering_place hs (.addBlock f b) (List.forall_mem_cons.mpr
    ⟨hfunction.2, List.forall_mem_singleton.mpr (hb.1 ▸ hblock.2)⟩) fun _ => sound_silent

/-- A value and a block come to a phi; both were handed over as operands. -/
theorem keeps_performChange_addIncoming (hs : s.Sound) (hlabels : labels.Held s)
    {phi value block : Given}
    (hpermitted : (Operation.change (.addIncoming phi value block)).permitted d labels s = true) :
    (performChange labels (.addIncoming phi value block)).Keeps (.edits d) s
      fun outcome t => outcome.Sound t := by
  refine (reads_look hlabels phi).bind fun phi _ => ?_
  refine (reads_look hlabels value).bind fun value' hvalue => ?_
  refine (reads_look hlabels block).bind fun block' hblock => ?_
  have hgive : labels.Give s [value, block] [value', block'] := .cons hvalue (.cons hblock .nil)
  exact keeps_answering
    (keeps_addIncoming hs phi (hgive.fits (Operation.values_of_permitted hpermitted)))
    fun _ => sound_silent

theorem keeps_performChange_setLoc (hs : s.Sound) (hlabels : labels.Held s)
    (instruction loc : Given) :
    (performChange labels (.setLoc instruction loc)).Keeps (.edits d) s
      fun outcome t => outcome.Sound t := by
  refine (reads_look hlabels instruction).bind fun slot _ => ?_
  refine (reads_look hlabels loc).bind fun loc hloc => ?_
  have hchange : (changeInstruction slot fun i => { i with loc }).Keeps (.edits d) s _ :=
    keeps_changeInstruction hs slot (fun _ => rfl) (fun _ => rfl) (fun _ _ => hloc.2) fun _ h => h
  exact keeps_answering hchange fun _ => sound_silent

theorem keeps_performChange_setVariable (hs : s.Sound) (hlabels : labels.Held s)
    (record var : Given) :
    (performChange labels (.setVariable record var)).Keeps (.edits d) s
      fun outcome t => outcome.Sound t := by
  refine (reads_look hlabels record).bind fun slot _ => ?_
  refine (reads_look hlabels var).bind fun var hvar => ?_
  have hchange : (changeBinding slot fun binding => { binding with var }).Keeps (.edits d) s _ :=
    keeps_changeBinding hs slot fun _ h => ⟨hvar.2, h.2⟩
  exact keeps_answering hchange fun _ => sound_silent

theorem keeps_performChange_setExpression (hs : s.Sound) (hlabels : labels.Held s)
    (record expression : Given) :
    (performChange labels (.setExpression record expression)).Keeps (.edits d) s
      fun outcome t => outcome.Sound t := by
  refine (reads_look hlabels record).bind fun slot _ => ?_
  refine (reads_look hlabels expression).bind fun expression hexpression => ?_
  have hchange : (changeBinding slot fun b => { b with expression }).Keeps (.edits d) s _ :=
    keeps_changeBinding hs slot fun _ h => ⟨h.1, hexpression.2⟩
  exact keeps_answering hchange fun _ => sound_silent

/-- One operand of a user; a record's are out of reach under a discipline of records. -/
theorem keeps_performChange_setOperand (hs : s.Sound) (hlabels : labels.Held s)
    {user : Given} {index : Int} {value : Given}
    (hpermitted : (Operation.change (.setOperand user index value)).permitted d labels s = true) :
    (performChange labels (.setOperand user index value)).Keeps (.edits d) s
      fun outcome t => outcome.Sound t := by
  refine (reads_look hlabels user).bind fun slot huser => ?_
  refine (reads_look hlabels value).bind fun value' hvalue => reads_userIn.bind fun id hid => ?_
  obtain ⟨rfl, hid⟩ := hid
  have hgive : labels.Give s [value] [value'] := .cons hvalue .nil
  have hfits := fits_of_not_handled huser.1 (Operation.records_of_permitted hpermitted)
    (hgive.fits (Operation.values_of_permitted hpermitted))
  have hfrees : d.steady = true → s.isRecord id = false := fun hd =>
    isRecord_of_permitted huser.1 (Operation.steady_of_permitted hpermitted hd)
  have hedit : (Edit.setOperand id index value').act.Keeps (.edits d) s _ :=
    keeps_edit hs ⟨hid, hfits, .of_not_record hfrees⟩
  exact keeps_answering hedit.any fun _ => sound_silent

/-- All operands of a user, under the same discipline as a single one. -/
theorem keeps_performChange_setOperands (hs : s.Sound) (hlabels : labels.Held s)
    {user : Given} {values : List Given}
    (hpermitted : (Operation.change (.setOperands user values)).permitted d labels s = true) :
    (performChange labels (.setOperands user values)).Keeps (.edits d) s
      fun outcome t => outcome.Sound t := by
  refine (reads_look hlabels user).bind fun slot huser => ?_
  refine (reads_lookAll hlabels values).bind fun slots hgive => ?_
  refine reads_userIn.bind fun id hid => ?_
  obtain ⟨rfl, hid⟩ := hid
  have hfits := fits_of_not_handled huser.1 (Operation.records_of_permitted hpermitted)
    (hgive.fits (Operation.values_of_permitted hpermitted))
  exact keeps_answering (keeps_setOperandsOf hs hid hfits fun hd =>
    isRecord_of_permitted huser.1 (Operation.steady_of_permitted hpermitted hd))
    fun _ => sound_silent

/-- Dropping the references of a user frees its operands, which a steady discipline keeps off
records. -/
theorem keeps_performChange_dropReferences (hs : s.Sound) (hlabels : labels.Held s) {user : Given}
    (hpermitted : (Operation.change (.dropReferences user)).permitted d labels s = true) :
    (performChange labels (.dropReferences user)).Keeps (.edits d) s
      fun outcome t => outcome.Sound t := by
  refine keeps_answering ((reads_lookIn hlabels user fun _ => reads_userIn).bind fun id hid => ?_)
    fun _ => sound_silent
  obtain ⟨_, hget, _, rfl, hid⟩ := hid
  exact keeps_setOperandsOf hs hid Discipline.fits_nil fun hd =>
    isRecord_of_permitted hget (Operation.steady_of_permitted hpermitted hd)

theorem keeps_performChange_append (hs : s.Sound) (hlabels : labels.Held s)
    (block instruction : Given) :
    (performChange labels (.append block instruction)).Keeps (.edits d) s
      fun outcome t => outcome.Sound t := by
  refine (reads_look hlabels block).bind fun block hblock => ?_
  refine (reads_look hlabels instruction).bind fun instruction hinstruction => ?_
  exact keeps_entering hs hblock.2 hinstruction.2 (reads_blockIn.mono fun _ hb => hb.1)
    .append fun _ _ => rfl

theorem keeps_performChange_insert (hs : s.Sound) (hlabels : labels.Held s)
    (block instruction before : Given) :
    (performChange labels (.insert block instruction before)).Keeps (.edits d) s
      fun outcome t => outcome.Sound t := by
  refine (reads_look hlabels block).bind fun block hblock => ?_
  refine (reads_look hlabels instruction).bind fun instruction hinstruction => ?_
  refine (reads_look hlabels before).bind fun before _ => ?_
  exact keeps_entering hs hblock.2 hinstruction.2 (reads_blockIn.mono fun _ hb => hb.1)
    (fun b i => .insertBefore b i before) fun _ _ => rfl

theorem keeps_performChange_blockInsertAfter (hs : s.Sound) (hlabels : labels.Held s)
    (block instruction after : Given) :
    (performChange labels (.blockInsertAfter block instruction after)).Keeps (.edits d) s
      fun outcome t => outcome.Sound t := by
  refine (reads_look hlabels block).bind fun block hblock => ?_
  refine (reads_look hlabels instruction).bind fun instruction hinstruction => ?_
  refine (reads_look hlabels after).bind fun after _ => ?_
  exact keeps_entering hs hblock.2 hinstruction.2 (reads_blockOrClash.mono fun _ hb => hb.1)
    (fun b i => .insertAfter b i after) fun _ _ => rfl

/-- An instruction goes behind another one, in whichever block that one is. -/
theorem keeps_performChange_insertAfter (hs : s.Sound) (hlabels : labels.Held s)
    (instruction after : Given) :
    (performChange labels (.insertAfter instruction after)).Keeps (.edits d) s
      fun outcome t => outcome.Sound t := by
  refine (reads_look hlabels instruction).bind fun instruction hinstruction => ?_
  refine (reads_look hlabels after).bind fun after _ => reads_get.bind fun t ht => ?_
  subst ht
  dsimp only
  split
  · exact keeps_throw rfl
  · refine reads_instructionIn.bind fun i hi => ?_
    refine keeps_answering (keeps_placeAfter hs.closed fun block hblock => ?_) fun _ => sound_silent
    exact keeps_place (.insertAfter block i after) hs
      (hasIn_pair (hasIn_some.mpr hblock) hinstruction.2 rfl hi.1)

theorem keeps_performChange_remove (hs : s.Sound) (hlabels : labels.Held s)
    (block instruction : Given) :
    (performChange labels (.remove block instruction)).Keeps (.edits d) s
      fun outcome t => outcome.Sound t := by
  refine (reads_look hlabels block).bind fun block _ => ?_
  refine (reads_look hlabels instruction).bind fun instruction _ => ?_
  exact reads_blockIn.bind fun b _ =>
    keeps_answering_place hs (.remove b instruction) (fun _ h => nomatch h) fun _ => sound_object _

theorem keeps_performChange_removeFromParent (hs : s.Sound) (hlabels : labels.Held s)
    (instruction : Given) :
    (performChange labels (.removeFromParent instruction)).Keeps (.edits d) s
      fun outcome t => outcome.Sound t := by
  refine keeps_answering ((reads_lookIn hlabels instruction fun _ => reads_instructionIn).bind
    fun id _ => keeps_removeFromParent fun block => ?_) fun _ => sound_silent
  exact keeps_place (.remove block (.ofValue id)) hs fun _ h => nomatch h

/-- Erasing frees operands, so that a steady discipline keeps it off records. -/
theorem keeps_performChange_erase (hs : s.Sound) (hlabels : labels.Held s) {instruction : Given}
    (hpermitted : (Operation.change (.erase instruction)).permitted d labels s = true) :
    (performChange labels (.erase instruction)).Keeps (.edits d) s
      fun outcome t => outcome.Sound t := by
  refine keeps_answering ((reads_lookIn hlabels instruction fun _ => reads_instructionIn).bind
    fun id hid => ?_) fun _ => sound_silent
  obtain ⟨_, hget, _, rfl, v, i, hv, hi⟩ := hid
  exact keeps_erase hs hv hi fun hd =>
    isRecord_of_permitted hget (Operation.steady_of_permitted hpermitted hd)

theorem keeps_performChange_setInstructions (hs : s.Sound) (hlabels : labels.Held s)
    (block : Given) (instructions : List Given) :
    (performChange labels (.setInstructions block instructions)).Keeps (.edits d) s
      fun outcome t => outcome.Sound t := by
  refine (reads_look hlabels block).bind fun block hblock => ?_
  refine (reads_lookAll hlabels instructions).bind fun instructions hinstructions => ?_
  refine reads_blockIn.bind fun b hb => ?_
  exact keeps_answering_place hs (.setInstructions b instructions)
    (List.forall_mem_cons.mpr ⟨hb.1 ▸ hblock.2, hinstructions.hasIn⟩) fun _ => sound_silent

/-- A permitted change is made of admissible edits, and what it answers is there. Only the changes
of operands depend on what the discipline permits. -/
theorem keeps_performChange (hs : s.Sound) (hlabels : labels.Held s) {change : Change}
    (hpermitted : (Operation.change change).permitted d labels s = true) :
    (performChange labels change).Keeps (.edits d) s fun outcome t => outcome.Sound t := by
  cases change with
  | setArguments function arguments =>
    exact keeps_performChange_setArguments hs hlabels function arguments
  | addBlock function block => exact keeps_performChange_addBlock hs hlabels function block
  | addIncoming => exact keeps_performChange_addIncoming hs hlabels hpermitted
  | setLoc instruction loc => exact keeps_performChange_setLoc hs hlabels instruction loc
  | setVariable record var => exact keeps_performChange_setVariable hs hlabels record var
  | setExpression record expression =>
    exact keeps_performChange_setExpression hs hlabels record expression
  | setName object name =>
    exact (reads_look hlabels object).bind fun slot _ =>
      keeps_answering (keeps_rename hs slot name) fun _ => sound_silent
  | setOperand => exact keeps_performChange_setOperand hs hlabels hpermitted
  | setOperands => exact keeps_performChange_setOperands hs hlabels hpermitted
  | dropReferences => exact keeps_performChange_dropReferences hs hlabels hpermitted
  | append block instruction => exact keeps_performChange_append hs hlabels block instruction
  | insert block instruction before =>
    exact keeps_performChange_insert hs hlabels block instruction before
  | blockInsertAfter block instruction after =>
    exact keeps_performChange_blockInsertAfter hs hlabels block instruction after
  | insertAfter instruction after =>
    exact keeps_performChange_insertAfter hs hlabels instruction after
  | remove block instruction => exact keeps_performChange_remove hs hlabels block instruction
  | removeFromParent instruction =>
    exact keeps_performChange_removeFromParent hs hlabels instruction
  | erase => exact keeps_performChange_erase hs hlabels hpermitted
  | setInstructions block instructions =>
    exact keeps_performChange_setInstructions hs hlabels block instructions

end SsaDebugInfo.Script
