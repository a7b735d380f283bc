import SsaDebugInfo.Proofs.Diagnostics
import SsaDebugInfo.Proofs.Script.Perform.Change
import SsaDebugInfo.Proofs.Script.Perform.Make
import SsaDebugInfo.Script.Session

/-!
# Operations of a script are made of edits

A permitted operation is made of admissible edits: what it leaves to be bound is there, and reading
off its answer faults plainly. Questions, layouts and diagnostics are permitted always.

- `keeps_performQuestion`, `keeps_performRecords`, `keeps_performLayouts`,
  `keeps_performDiagnostics`: the operations that neither make nor change values by themselves.
- `Operation.keeps_perform`: every permitted operation.
-/

namespace SsaDebugInfo.Script

open Act Store Outcome

variable {d : Discipline} {s t : Store} {labels : Labels}

/-! ## Questions -/

theorem reads_trackedBy (r : ValueId) : (trackedBy r).Reads s fun _ => True :=
  (reads_operandAt r 0).bind_reads fun _ _ =>
    (reads_ask (s.plain_unwrap _)).mono fun _ _ => trivial

theorem reads_readPart (slot : Slot) (part : Option Part) :
    (readPart slot part).Reads s fun _ => True := by
  unfold readPart
  split
  · refine reads_fetch.bind_reads fun v _ => ?_
    split
    · exact reads_throw rfl
    · exact reads_throw rfl
    · exact reads_throw rfl
    · split
      · exact (reads_trackedBy _).bind_pure fun _ _ => trivial
      · split
        · exact reads_operandAt _ _
        · exact reads_throw rfl
    · exact reads_throw rfl
  · refine reads_fetch.bind_reads fun n _ => ?_
    split
    · exact reads_throw rfl
    · exact reads_throw rfl
  · exact reads_throw rfl

theorem reads_instructionsOfFunction (function : FunctionId) :
    (instructionsOfFunction function).Reads s fun _ => True := by
  refine reads_fetch.bind_reads fun f _ => ?_
  have hlists : (f.blocks.mapM fun block => do
      return (← fetch (← blockIn (.ofValue block))).instructions : Act (List (List Slot))).Reads s
        fun lists => ∀ l ∈ lists, True :=
    reads_mapM fun _ _ => reads_blockIn.bind_reads fun _ _ =>
      reads_fetch.bind_pure fun _ _ => trivial
  exact hlists.bind_pure fun _ _ => trivial

/-- An instruction of a block, counted from either end, is there. -/
theorem keeps_performQuestion_instructionAt (hs : s.Sound) (hlabels : labels.Held s)
    (block : Given) (index : Int) :
    (performQuestion labels (.instructionAt block index)).Keeps (.edits d) s
      fun outcome t => outcome.Sound t := by
  refine (reads_look hlabels block).bind fun slot _ => ?_
  split
  · exact keeps_throw rfl
  · refine reads_blockIn.bind fun id _ => reads_fetch.bind fun v hv => ?_
    dsimp only
    split
    · exact keeps_throw rfl
    · next place hplace =>
      refine keeps_pure ⟨fun slot' hslot' => ?_, fun view => (view.plain_shown _).map _⟩
      cases hslot'
      rw [List.getElem?_eq_getElem (position?_eq_some hplace)]
      exact (hs.closed.holdsOnly hv).instructions _ (List.getElem_mem _)

/-- Questions change nothing, apart from contexts that get fixed when they are asked for. -/
theorem keeps_performQuestion (hs : s.Sound) (hlabels : labels.Held s) (question : Question) :
    (performQuestion labels question).Keeps (.edits d) s fun outcome t => outcome.Sound t := by
  cases question with
  | instructionAt block index =>
    exact keeps_performQuestion_instructionAt hs hlabels block index
  | next instruction =>
    refine Reads.bind ((reads_lookIn hlabels instruction fun _ => reads_instructionIn).bind_reads
      fun id _ => reads_nextInstruction id) fun _ _ => keeps_pure (sound_object _)
  | indexOf block instruction =>
    refine (reads_look hlabels block).bind fun block _ => ?_
    refine (reads_look hlabels instruction).bind fun instruction _ => ?_
    refine reads_blockOrClash.bind fun id _ => ?_
    exact reads_indexIn.bind fun _ _ => keeps_pure (sound_plain _)
  | instructions container =>
    refine (reads_look hlabels container).bind fun slot _ => ?_
    split
    · exact (reads_instructionsOfFunction _).bind fun _ _ => keeps_pure (sound_objects _)
    · exact reads_blockIn.bind fun _ _ => reads_fetch.bind fun _ _ =>
        keeps_pure (sound_objects _)
  | predecessors block =>
    refine (reads_lookIn hlabels block fun _ => reads_blockIn).bind fun id _ => ?_
    refine reads_get.bind fun t _ => keeps_pure (sound_answer fun view => ?_)
    exact (plain_mapM _ fun _ => view.plain_shown _).bind fun _ => plain_pure _
  | incoming phi =>
    refine (reads_lookIn hlabels phi fun _ => reads_instructionIn).bind fun id _ => ?_
    refine reads_fetch.bind fun v _ => ?_
    dsimp only
    split
    · exact keeps_throw rfl
    · refine keeps_pure (sound_answer fun view => ?_)
      exact (plain_mapM _ fun _ => (view.plain_shown _).bind fun _ =>
        (view.plain_shown _).bind fun _ => plain_pure _).bind fun _ => plain_pure _
  | part object part =>
    refine (reads_look hlabels object).bind fun slot _ => ?_
    exact (reads_readPart slot part).bind fun _ _ => keeps_pure (sound_object _)
  | info object =>
    refine (reads_look hlabels object).bind fun slot _ => keeps_pure (sound_answer fun view => ?_)
    exact (plain_found _).bind fun _ => (view.plain_info _).bind fun _ => plain_pure _
  | names function =>
    refine (reads_lookIn hlabels function fun _ => reads_idIn).bind fun id _ => ?_
    exact reads_fetch.bind fun _ _ => keeps_pure (sound_plain _)
  | opcode instruction =>
    refine (reads_lookIn hlabels instruction fun _ => reads_instructionIn).bind fun id _ => ?_
    exact reads_fetch.bind fun _ _ => keeps_pure (sound_plain _)
  | isConstant value =>
    refine (reads_lookIn hlabels value fun _ => reads_valueIn).bind fun id _ => ?_
    exact reads_fetch.bind fun _ _ => keeps_pure (sound_plain _)
  | contextOf object =>
    refine Keeps.bind ((reads_look hlabels object).bind fun slot _ =>
      (keeps_contextOf hs slot).of_interns.edits.any) fun _ _ _ _ => keeps_pure (sound_object _)
  | operandText value =>
    refine (reads_look hlabels value).bind fun slot _ => ?_
    exact (reads_ask (s.plain_slotText slot)).bind fun _ _ => keeps_pure (sound_plain _)
  | dump object locs =>
    refine (reads_look hlabels object).bind fun slot _ => keeps_pure (sound_answer fun view => ?_)
    exact (view.plain_dump locs slot).map _
  | escapeName name => exact keeps_pure (sound_plain _)

/-! ## Records, layouts and diagnostics -/

/-- The handle of a value is there. -/
theorem keeps_handleEdits (hs : s.Sound) (slot : Slot) :
    (handleOf slot).Keeps (.edits d) s fun id t => t.Has (.node id) := by
  refine (keeps_handleOf hs slot).of_interns.edits.mono fun h t _ ⟨hst, v, _, hh⟩ => ?_
  have ht := (hst.sound hs).interned
  obtain ⟨_, _, hmem⟩ := ht.handleFor?_eq_some.mp hh
  exact has_of_handleAt (ht.handle hmem)

theorem keeps_wrapperKey (hs : s.Sound) (hlabels : labels.Held s) (value node context : Given) :
    (wrapperKey labels value node context).Keeps (.edits d) s fun key t =>
      t.Has (.context key.1) ∧ t.Has (.node key.2) := by
  refine (reads_look hlabels value).bind fun value _ => ?_
  refine (reads_look hlabels node).bind fun node hnode => ?_
  refine (reads_look hlabels context).bind fun context hcontext => ?_
  -- asking for the context may fix it, so that the node is found in a later store
  have hrest : ∀ (c : ContextId) (t : Store), Edited d s t → t.Has (.context c) → (do
      let node ← if node.isSome then nodeIn node else handleOf value
      return (c, node) : Act (ContextId × NodeId)).Keeps (.edits d) t fun key u =>
        u.Has (.context key.1) ∧ u.Has (.node key.2) := by
    intro c t ht hc
    split
    · refine reads_idIn.bind fun n hn => keeps_pure ⟨hc, ?_⟩
      exact hasIn_some.mp (hn ▸ ht.hasIn hnode.2)
    · exact (keeps_handleEdits (ht.sound hs) value).bind fun n u (hu : Edited d t u) hn =>
        keeps_pure ⟨hu.has hc, hn⟩
  dsimp only
  split
  · refine reads_idIn.bind fun c hc => hrest c s (.refl d s) ?_
    exact hasIn_some.mp (hc ▸ hcontext.2)
  · exact (keeps_contextOf hs value).of_interns.edits.bind fun c t ht hc => hrest c t ht hc.2.1

theorem keeps_performRecords (hs : s.Sound) (hlabels : labels.Held s)
    {operation : RecordOperation}
    (hpermitted : (Operation.records operation).permitted d labels s = true) :
    (performRecords labels operation).Keeps (.edits d) s fun outcome t => outcome.Sound t := by
  cases operation with
  | handle value =>
    refine Keeps.bind ((reads_look hlabels value).bind fun slot _ => keeps_handleEdits hs slot)
      fun id t _ hid => reads_fetch.bind fun n _ => ?_
    refine (reads_ask (t.plain_printNode id)).bind fun _ _ => keeps_pure ⟨fun slot hslot => ?_,
      fun _ => plain_ok _⟩
    cases hslot
    exact hasIn_some.mpr hid
  | handleIfExists value =>
    refine Keeps.bind ((reads_look hlabels value).bind fun slot _ =>
      (keeps_handleIfExists hs slot).of_interns.edits.any) fun o t _ _ => ?_
    split
    · exact keeps_pure sound_silent
    · exact reads_fetch.bind fun _ _ => (reads_ask (t.plain_printNode _)).bind fun _ _ =>
        keeps_pure (sound_plain _)
  | wrapper value node context =>
    refine (keeps_wrapperKey hs hlabels value node context).bind
      fun key t (ht : Edited d s t) hkey => ?_
    refine (keeps_wrapperOf (ht.sound hs) hkey.1 hkey.2).of_interns.edits.bind
      fun w u _ ⟨htu, hw⟩ => keeps_pure (sound_creation ?_)
    exact has_of_wrappedAt ((htu.sound (ht.sound hs)).interned.wrapper hw)
  | wrapperIfExists value node context =>
    refine (keeps_wrapperKey hs hlabels value node context).bind fun key t _ _ => ?_
    exact reads_wrapperIfExists.bind fun _ _ => keeps_pure (sound_object _)
  | tables context =>
    refine (reads_lookIn hlabels context fun _ => reads_idIn).bind fun id _ => ?_
    exact reads_fetch.bind fun _ _ => reads_get.bind fun _ _ => keeps_pure (sound_plain _)
  | resolve instruction depth =>
    refine (reads_look hlabels instruction).bind fun slot _ => reads_require.bind fun _ _ => ?_
    have hresolve : (resolve depth.toNat slot).Reads s fun _ => True :=
      reads_instructionIn.bind_reads fun _ _ => reads_get.bind_pure fun _ _ => trivial
    exact hresolve.bind fun _ _ => keeps_pure (sound_object _)
  | find value =>
    refine Keeps.bind ((reads_look hlabels value).bind fun slot _ =>
      (keeps_findRecord hs slot).of_interns.edits.any) fun _ _ _ _ => keeps_pure (sound_object _)
  | migrate old new =>
    -- migration makes a record let go, which a steady discipline does not permit
    have hsteady : d.steady = false := by
      by_contra hd
      cases Operation.steady_of_permitted hpermitted (Bool.of_not_eq_false hd)
    refine (reads_look hlabels old).bind fun source _ => ?_
    refine (reads_look hlabels new).bind fun target _ => ?_
    have hmigrate : (SsaDebugInfo.migrate source target).Keeps
        (.records d (fun _ => False) False) s _ :=
      keeps_migrate hs hsteady (fun h => False.elim h) _ _
    exact hmigrate.edits.bind fun _ _ _ _ => keeps_pure sound_silent
  | chain value =>
    refine (reads_look hlabels value).bind fun slot _ => ?_
    exact (reads_ask (s.plain_chain slot)).bind fun _ _ => keeps_pure (sound_objects _)
  | scatter value =>
    refine Keeps.bind ((reads_look hlabels value).bind fun slot _ => ?_) fun _ _ _ (_ : True) =>
      keeps_pure sound_silent
    exact (keeps_scatter hs (fun _ h => False.elim h) slot).edits.any

theorem reads_chosenLayout (hlabels : labels.Held s) (layout module : Given) :
    (chosenLayout labels layout module).Reads s fun _ => True := by
  unfold chosenLayout
  split
  · exact (reads_look hlabels layout).bind_reads fun _ _ => reads_idIn.mono fun _ _ => trivial
  · exact (reads_look hlabels _).bind_reads fun _ _ => reads_idIn.bind_reads fun _ _ =>
      reads_fetch.bind_pure fun _ _ => trivial

theorem keeps_performLayouts (hs : s.Sound) (hlabels : labels.Held s)
    (operation : LayoutOperation) :
    (performLayouts labels operation).Keeps (.edits d) s fun outcome t => outcome.Sound t := by
  have hsize : ∀ {t : Store} (id : LayoutId) (type : Ty), t.Sound → (do
      return .plain (.number (← sizeUnder id type)) : Act Outcome).Keeps (.edits d) t
        fun outcome u => outcome.Sound u := fun id type ht =>
    (keeps_sizeUnder ht id type).edits.bind fun _ _ _ _ => keeps_pure (sound_plain _)
  cases operation with
  | layout text =>
    have hcreate : (create .layout { text := text }).Keeps (.edits d) s _ :=
      keeps_createHas hs trivial fun _ h => nomatch h
    refine hcreate.bind fun id t _ hid => keeps_pure ⟨fun slot hslot => ?_, fun _ => plain_ok _⟩
    cases hslot
    exact hasIn_some.mpr hid
  | size layout module type =>
    refine (reads_chosenLayout hlabels layout module).bind fun id _ => ?_
    exact (keeps_formType hs type).bind fun type t (ht : Edited d s t) _ =>
      hsize id type (ht.sound hs)
  | pointerSize layout module =>
    exact (reads_chosenLayout hlabels layout module).bind fun id _ => hsize id _ hs
  | sizes layout module =>
    refine (reads_chosenLayout hlabels layout module).bind fun id _ => ?_
    exact reads_fetch.bind fun _ _ => keeps_pure (sound_plain _)
  | typeText type =>
    exact (keeps_formType hs type).bind fun _ _ _ _ => keeps_pure (sound_plain _)

/-- Every subject has an emission of its own, at whatever level. -/
theorem keeps_emitAs (hs : s.Sound) (emitter : Emitter) {target : Slot} (htarget : s.HasIn target)
    (reason : String) (subject : Subject) (level : Option String) :
    (match subject with
      | .instruction => emitOnInstruction emitter target reason level
      | .function => emitOnFunction emitter target reason level
      | .global => emitOnGlobal emitter target reason level
      | .program => emitOnContext emitter reason level
      | .resource => emitOnInstruction emitter target resourceMappingReason level :
        Act DiagnosticId).Keeps (.edits d) s fun id t => t.Has (.diagnostic id) := by
  cases subject with
  | instruction => exact keeps_emitOnInstruction hs emitter target reason level
  | function => exact keeps_emitOnFunction hs emitter htarget reason level
  | global => exact keeps_emitOnGlobal hs emitter target reason level
  | program => exact keeps_emitOnContext hs emitter reason level
  | resource => exact keeps_emitOnInstruction hs emitter target _ level

theorem keeps_emitAbout (hs : s.Sound) (emitter : Emitter) (subject : Option Subject)
    {target : Slot} (htarget : s.HasIn target) (reason : String) (choice : LevelChoice) :
    (emitAbout emitter subject target reason choice).Keeps (.edits d) s fun id t =>
      t.Has (.diagnostic id) := by
  have hemit := keeps_emitAs (d := d) hs emitter htarget reason
  refine (reads_ofExcept (plain_found subject)).bind fun subject _ => ?_
  dsimp only
  split
  · exact hemit .resource (some "error")
  · exact hemit _ _
  · exact hemit _ _
  · exact hemit _ _
  · exact hemit .program (some "note")
  · exact keeps_throw rfl

theorem keeps_performDiagnostics (hs : s.Sound) (hlabels : labels.Held s)
    (operation : DiagnosticOperation) :
    (performDiagnostics labels operation).Keeps (.edits d) s fun outcome t => outcome.Sound t := by
  cases operation with
  | engine collecting errorsAreFatal =>
    have hcreate : ∀ e : Engine, (∀ slot ∈ e.slots, s.HasIn slot) → (do
        return .quiet (.engine (← create .engine e)) : Act Outcome).Keeps (.edits d) s
          fun outcome t => outcome.Sound t := by
      intro e he
      have hcreate : (create .engine e).Keeps (.edits d) s _ := keeps_createHas hs trivial he
      exact hcreate.bind fun _ _ _ hid => keeps_pure (sound_quiet hid)
    cases collecting with
    | true => exact hcreate _ fun _ h => nomatch h
    | false => exact hcreate _ fun _ h => nomatch h
  | emitter engine depth =>
    have hengine : (labels.look engine >>= optionally engineIn).Reads s fun engine =>
        ∀ e, engine = some e → s.Has (.engine e) := by
      refine (reads_look hlabels engine).bind_reads fun slot hslot => ?_
      refine (reads_optionally reads_idIn).mono fun engine h e he => ?_
      exact hasIn_some.mp (h e he ▸ hslot.2)
    refine hengine.bind fun engine hengine => ?_
    refine (keeps_makeEmitter hs depth hengine).bind fun id t _ hid => ?_
    refine reads_fetch.bind fun e _ => reads_fetch.bind fun _ _ => ?_
    refine keeps_pure ⟨fun slot hslot => ?_, fun _ => plain_ok _⟩
    cases hslot
    exact hasIn_some.mpr hid
  | emit emitter subject target reason level =>
    refine (reads_look hlabels emitter).bind fun emitter _ => ?_
    refine (reads_look hlabels target).bind fun target htarget => ?_
    refine reads_idIn.bind fun id _ => reads_fetch.bind fun e _ => ?_
    exact (keeps_emitAbout hs e subject htarget.2 reason level).bind fun _ _ _ hid =>
      keeps_pure (sound_diagnostic hid)
  | diagnostic level reason arguments function location notes =>
    refine (reads_look hlabels function).bind fun function hfunction => ?_
    refine (reads_look hlabels location).bind fun location hlocation => ?_
    refine (reads_lookAll hlabels notes).bind fun notes hnotes => ?_
    refine (keeps_makeDiagnostic hs level fun level => ?_).bind fun _ _ _ hid =>
      keeps_pure (sound_diagnostic hid)
    exact List.forall_mem_cons.mpr
      ⟨hfunction.2, List.forall_mem_cons.mpr ⟨hlocation.2, hnotes.hasIn⟩⟩
  | report diagnostic =>
    refine (reads_lookIn hlabels diagnostic fun _ => reads_idIn).bind fun id _ => ?_
    exact keeps_pure (sound_answer fun view => (view.plain_report id).map _)
  | process engine diagnostic =>
    refine (reads_look hlabels engine).bind fun engine _ => ?_
    refine (reads_look hlabels diagnostic).bind fun diagnostic hdiagnostic => ?_
    refine reads_idIn.bind fun id _ => ?_
    exact (keeps_process hs id hdiagnostic.2).bind fun _ _ _ _ => keeps_pure sound_silent
  | received engine =>
    refine Reads.bind ((reads_lookIn hlabels engine fun _ => reads_idIn).bind_reads
      fun id _ => reads_receivedLines id) fun _ _ => keeps_pure (sound_plain _)

/-- A permitted operation is made of admissible edits; what it leaves to be bound is there. -/
theorem Operation.keeps_perform (hs : s.Sound) (hlabels : labels.Held s) {operation : Operation}
    (hpermitted : operation.permitted d labels s = true) :
    (operation.perform labels).Keeps (.edits d) s fun outcome t => outcome.Sound t := by
  cases operation with
  | metadata operation => exact keeps_performMetadata hs hlabels operation
  | modules operation => exact keeps_performModules hs hlabels operation
  | make value => exact keeps_performMake hs hlabels hpermitted
  | change change => exact keeps_performChange hs hlabels hpermitted
  | ask question => exact keeps_performQuestion hs hlabels question
  | records operation => exact keeps_performRecords hs hlabels hpermitted
  | layouts operation => exact keeps_performLayouts hs hlabels operation
  | diagnostics operation => exact keeps_performDiagnostics hs hlabels operation

end SsaDebugInfo.Script
