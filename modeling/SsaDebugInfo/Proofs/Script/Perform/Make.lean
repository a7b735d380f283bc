import SsaDebugInfo.Proofs.Ir.Build
import SsaDebugInfo.Proofs.Modules
import SsaDebugInfo.Proofs.Script.Permitted
import SsaDebugInfo.Script.Perform.Make
import SsaDebugInfo.Script.Perform.Metadata
import SsaDebugInfo.Script.Perform.Modules

/-!
# Operations that make things

Metadata nodes, modules and values are made by admissible edits, one operation at a time.

- `keeps_performMetadata`, `keeps_performModules`: what is no value.
- `keeps_performMake`: values, among them the records that the debug operations make.
-/

namespace SsaDebugInfo.Script

open Act Store Outcome

variable {d : Discipline} {s t : Store} {labels : Labels}

/-! ## Metadata -/

/-- A new metadata node that is no handle. -/
theorem keeps_makeNode (hs : s.Sound) {node : Node} (hnode : node.handleOf? = none)
    (hslots : ∀ slot ∈ node.slots, s.HasIn slot) :
    (do return .creation (.node (← create .node node)) : Act Outcome).Keeps (.edits d) s
      fun outcome t => outcome.Sound t := by
  have hcreate : (create .node node).Keeps (.edits d) s _ := keeps_createHas hs hnode hslots
  exact hcreate.bind fun _ _ _ hid => keeps_pure (sound_creation hid)

/-- A unit keeps what it lists, and lists what is there besides. -/
theorem keeps_performMetadata_extendUnit (hs : s.Sound) (hlabels : labels.Held s) (unit : Given)
    (globals subprograms : List Given) :
    (performMetadata labels (.extendUnit unit globals subprograms)).Keeps (.edits d) s
      fun outcome t => outcome.Sound t := by
  refine (reads_lookIn hlabels unit fun _ => reads_idIn).bind fun id _ => ?_
  refine (reads_lookAll hlabels globals).bind fun globals hglobals => ?_
  refine (reads_lookAll hlabels subprograms).bind fun subprograms hsubprograms => ?_
  refine reads_fetch.bind fun node hnode => ?_
  split
  · next source producer gs sps =>
    refine Keeps.bind (keeps_reviseEdit hs fun o ho => ?_) fun _ _ _ _ =>
      keeps_pure sound_silent
    obtain rfl := Option.some_inj.mp (hnode.symm.trans ho)
    have hheld := hs.closed.held id hnode
    refine ⟨rfl, List.forall_mem_cons.mpr ⟨hheld _ List.mem_cons_self, fun slot hslot => ?_⟩⟩
    rcases List.mem_append.mp hslot with hslot | hslot
    · rcases List.mem_append.mp hslot with hslot | hslot
      · exact hheld slot (List.mem_cons_of_mem _ (List.mem_append_left _ hslot))
      · exact hglobals.hasIn slot hslot
    · rcases List.mem_append.mp hslot with hslot | hslot
      · exact hheld slot (List.mem_cons_of_mem _ (List.mem_append_right _ hslot))
      · exact hsubprograms.hasIn slot hslot
  · exact keeps_throw rfl

/-- Metadata is made of what is there, and asking for it changes nothing. -/
theorem keeps_performMetadata (hs : s.Sound) (hlabels : labels.Held s)
    (operation : MetadataOperation) :
    (performMetadata labels operation).Keeps (.edits d) s fun outcome t => outcome.Sound t := by
  cases operation with
  | context =>
    have hcreate : (create .context {}).Keeps (.edits d) s _ :=
      keeps_createHas hs ⟨rfl, rfl⟩ fun _ h => nomatch h
    exact hcreate.bind fun _ _ _ hid => keeps_pure (sound_creation hid)
  | file filename directory => exact keeps_makeNode hs rfl fun _ h => nomatch h
  | node isScope =>
    cases isScope with
    | true => exact keeps_makeNode hs rfl fun _ h => nomatch h
    | false => exact keeps_makeNode hs rfl fun _ h => nomatch h
  | unit source producer globals subprograms =>
    refine (reads_look hlabels source).bind fun source hsource => ?_
    refine (reads_lookAll hlabels globals).bind fun globals hglobals => ?_
    refine (reads_lookAll hlabels subprograms).bind fun subprograms hsubprograms => ?_
    refine keeps_makeNode hs rfl (List.forall_mem_cons.mpr ⟨hsource.2, fun slot hslot => ?_⟩)
    rcases List.mem_append.mp hslot with hslot | hslot
    · exact hglobals.hasIn slot hslot
    · exact hsubprograms.hasIn slot hslot
  | extendUnit unit globals subprograms =>
    exact keeps_performMetadata_extendUnit hs hlabels unit globals subprograms
  | subprogram name source line parent linkage =>
    refine (reads_look hlabels source).bind fun source hsource => ?_
    refine (reads_look hlabels parent).bind fun parent hparent => ?_
    exact keeps_makeNode hs rfl
      (List.forall_mem_cons.mpr ⟨hsource.2, List.forall_mem_singleton.mpr hparent.2⟩)
  | location line column parent inlinedAt =>
    refine (reads_look hlabels parent).bind fun parent hparent => ?_
    refine (reads_look hlabels inlinedAt).bind fun inlinedAt hinlinedAt => ?_
    exact keeps_makeNode hs rfl
      (List.forall_mem_cons.mpr ⟨hparent.2, List.forall_mem_singleton.mpr hinlinedAt.2⟩)
  | localVariable name parent source line argument =>
    refine (reads_look hlabels parent).bind fun parent hparent => ?_
    refine (reads_look hlabels source).bind fun source hsource => ?_
    exact keeps_makeNode hs rfl
      (List.forall_mem_cons.mpr ⟨hparent.2, List.forall_mem_singleton.mpr hsource.2⟩)
  | globalDescriptor name parent source line storage =>
    refine (reads_look hlabels parent).bind fun parent hparent => ?_
    refine (reads_look hlabels source).bind fun source hsource => ?_
    refine (reads_look hlabels storage).bind fun storage hstorage => ?_
    exact keeps_makeNode hs rfl (List.forall_mem_cons.mpr ⟨hparent.2,
      List.forall_mem_cons.mpr ⟨hsource.2, List.forall_mem_singleton.mpr hstorage.2⟩⟩)
  | expression elements => exact keeps_makeNode hs rfl fun _ h => nomatch h
  | describeExpression expression =>
    refine (reads_look hlabels expression).bind fun slot _ => ?_
    refine (reads_ask (plain_found _)).bind fun elements _ => ?_
    exact (reads_ofExcept (Expression.plain_write elements)).bind fun _ _ =>
      keeps_pure (sound_plain _)
  | «show» object =>
    refine (reads_look hlabels object).bind fun slot _ => keeps_pure (sound_answer fun view => ?_)
    exact (view.plain_showAmongOthers slot).map _
  | filename object =>
    refine (reads_look hlabels object).bind fun slot _ => ?_
    exact (reads_ask (s.plain_filenameOf slot)).bind fun _ _ => keeps_pure (sound_plain _)

/-! ## Modules -/

theorem reads_lookContext (hlabels : labels.Held s) (given : Given) :
    (labels.look given >>= optionally contextIn).Reads s fun context =>
      ∀ c, context = some c → s.Has (.context c) := by
  refine (reads_look hlabels given).bind_reads fun slot hslot => ?_
  refine (reads_optionally reads_idIn).mono fun context h c hc => ?_
  exact hasIn_some.mp (h c hc ▸ hslot.2)

theorem keeps_chosenIndex (hs : s.Sound) (module : ModuleId) (choice : IndexChoice) :
    (chosenIndex module choice).Keeps (.edits d) s fun index t =>
      ∀ ref ∈ index.refs, t.Has ref := by
  cases choice with
  | remembered => exact keeps_cachedIndex hs module
  | new times =>
    refine (reads_freshIndex hs.closed module times).keeps.mono fun _ _ _ h => ?_
    obtain ⟨rfl, h⟩ := h
    exact h

/-- A module is made with a layout of its own, or with one that it shares. -/
theorem keeps_performModules_module (hs : s.Sound) (hlabels : labels.Held s) (name : String)
    (context : Given) (layout : LayoutChoice) :
    (performModules labels (.module name context layout)).Keeps (.edits d) s
      fun outcome t => outcome.Sound t := by
  refine (reads_lookContext hlabels context).bind fun context hcontext => ?_
  -- a layout is either made for the module or shared, and the module made last
  have hmake : ∀ {t : Store} (layout : LayoutId), Edited d s t → t.Has (.layout layout) → (do
      return .creation (.module (← makeModule name context layout)) : Act Outcome).Keeps
        (.edits d) t fun outcome u => outcome.Sound u := fun layout ht hlayout =>
    (keeps_makeModule (ht.sound hs) name (fun c hc => ht.has (hcontext c hc)) hlayout).bind
      fun _ _ _ hid => keeps_pure (sound_creation hid)
  have hcreate : ∀ object : Layout, (do
      let layout ← create .layout object
      return .creation (.module (← makeModule name context layout)) : Act Outcome).Keeps
        (.edits d) s fun outcome t => outcome.Sound t := by
    intro object
    have hlayout : (create .layout object).Keeps (.edits d) s _ :=
      keeps_createHas hs trivial fun _ h => nomatch h
    exact hlayout.bind fun id _ ht hid => hmake id ht hid
  cases layout with
  | standard => exact hcreate _
  | described text => exact hcreate _
  | shared layout =>
    refine (reads_lookIn hlabels layout fun _ => reads_idIn).bind fun id hid => ?_
    obtain ⟨_, _, hslot, rfl⟩ := hid
    exact hmake id (.refl d s) (hasIn_some.mp hslot)

/-- A function gets another subprogram, which is there. -/
theorem keeps_performModules_setSubprogram (hs : s.Sound) (hlabels : labels.Held s)
    (function subprogram : Given) :
    (performModules labels (.setSubprogram function subprogram)).Keeps (.edits d) s
      fun outcome t => outcome.Sound t := by
  refine (reads_look hlabels function).bind fun function _ => ?_
  refine (reads_look hlabels subprogram).bind fun subprogram hsubprogram => ?_
  dsimp only
  split
  · exact keeps_throw rfl
  · refine Keeps.bind (keeps_reviseEdit hs fun f hf => ?_) fun _ _ _ _ => keeps_pure sound_silent
    refine ⟨⟨rfl, rfl, rfl, rfl, fun _ h => h⟩, Function.holdsOnly_iff.mp ?_⟩
    exact { hs.closed.function hf with subprogram := hsubprogram.2 }
  · exact keeps_pure sound_silent

/-- Modules are made of what is there, and their indexes list only what is there. -/
theorem keeps_performModules (hs : s.Sound) (hlabels : labels.Held s)
    (operation : ModuleOperation) :
    (performModules labels operation).Keeps (.edits d) s fun outcome t => outcome.Sound t := by
  cases operation with
  | module name context layout =>
    exact keeps_performModules_module hs hlabels name context layout
  | addFunction module function =>
    refine (reads_look hlabels module).bind fun module hmodule => ?_
    refine (reads_look hlabels function).bind fun function hfunction => ?_
    refine reads_idIn.bind fun f hf => reads_idIn.bind fun m hm => ?_
    subst hf hm
    exact (keeps_addFunction hs (hasIn_some.mp hmodule.2) (hasIn_some.mp hfunction.2)).bind
      fun _ _ _ _ => keeps_pure (sound_object _)
  | addGlobal module global =>
    refine (reads_look hlabels module).bind fun module hmodule => ?_
    refine (reads_look hlabels global).bind fun global _ => ?_
    refine reads_idIn.bind fun m hm => ?_
    subst hm
    exact (keeps_addGlobal hs (hasIn_some.mp hmodule.2) global).bind fun _ _ _ _ =>
      keeps_pure (sound_object _)
  | addUnit module unit =>
    refine (reads_look hlabels module).bind fun module _ => ?_
    refine (reads_look hlabels unit).bind fun unit hunit => reads_idIn.bind fun m _ => ?_
    exact (keeps_addUnit hs m hunit.2).bind fun _ _ _ _ => keeps_pure (sound_object _)
  | hasState module =>
    refine (reads_lookIn hlabels module fun _ => reads_idIn).bind fun id _ => ?_
    exact reads_fetch.bind fun _ _ => keeps_pure (sound_plain _)
  | getState module =>
    refine Reads.bind ((reads_lookIn hlabels module fun _ => reads_idIn).bind_reads
      fun id _ => reads_requireState id) fun _ _ => keeps_pure (sound_plain _)
  | createState module =>
    refine Keeps.bind ((reads_lookIn hlabels module fun _ => reads_idIn).bind fun id _ =>
      keeps_ensureState hs id) fun _ _ _ _ => keeps_pure (sound_plain _)
  | loadState module =>
    refine Keeps.bind ((reads_lookIn hlabels module fun _ => reads_idIn).bind fun id _ =>
      keeps_loadState hs id) fun _ _ _ _ => keeps_pure (sound_plain _)
  | index module choice =>
    refine (reads_lookIn hlabels module fun _ => reads_idIn).bind fun id _ => ?_
    refine (keeps_chosenIndex hs id choice).bind fun found _ _ _ =>
      keeps_pure (sound_answer fun view => ?_)
    exact (plain_mapM _ fun _ => view.plain_shown _).bind fun _ =>
      (plain_mapM _ fun _ => view.plain_shown _).bind fun _ =>
        (plain_mapM _ fun _ => view.plain_shown _).bind fun _ => plain_pure _
  | descriptor module global choice =>
    refine (reads_lookIn hlabels module fun _ => reads_idIn).bind fun id _ => ?_
    refine (reads_look hlabels global).bind fun global _ => ?_
    refine (keeps_chosenIndex hs id choice).bind fun found t _ _ => ?_
    exact (reads_ask (Index.plain_firstDescriptor t global _)).bind fun _ _ =>
      keeps_pure (sound_object _)
  | resetIndex module =>
    refine Keeps.bind ((reads_lookIn hlabels module fun _ => reads_idIn).bind fun id _ =>
      keeps_resetIndex hs id) fun _ _ _ _ => keeps_pure sound_silent
  | hasDebugInfo module =>
    refine (reads_lookIn hlabels module fun _ => reads_idIn).bind fun id _ => ?_
    exact reads_fetch.bind fun _ _ => keeps_pure (sound_plain _)
  | subprogramOf function =>
    refine (reads_lookIn hlabels function fun _ => reads_idIn).bind fun id _ => ?_
    exact reads_fetch.bind fun _ _ => keeps_pure (sound_object _)
  | setSubprogram function subprogram =>
    exact keeps_performModules_setSubprogram hs hlabels function subprogram

/-! ## Making values -/

theorem keeps_makeNew (hs : s.Sound) (hlabels : labels.Held s) (name : String)
    {form : NewInstruction}
    (hvalues : d.values = true → ∀ g ∈ form.operands, labels.givesValue g = true)
    (hrecords : d.records = true → ∀ w v e o, form ≠ .debugValue w v e o) :
    (makeNew labels name form).Keeps (.edits d) s fun id t => t.Has (.value id) := by
  cases form with
  | plain operands type =>
    refine (reads_lookAll hlabels operands).bind fun operands hoperands => ?_
    refine (keeps_formType hs type).bind fun type t (ht : Edited d s t) _ => ?_
    exact keeps_makeProgram (ht.sound hs) rfl ((hoperands.extends ht.toExtends).fits hvalues) type
      name
  | arith operation lhs rhs =>
    refine (reads_look hlabels lhs).bind fun _ hlhs => ?_
    refine (reads_look hlabels rhs).bind fun _ hrhs => ?_
    have hgive : labels.Give s [lhs, rhs] [_, _] := .cons hlhs (.cons hrhs .nil)
    exact keeps_makeArith name hs operation (hgive.fits hvalues)
  | phi type =>
    exact (keeps_formType hs type).bind fun type t (ht : Edited d s t) _ =>
      keeps_makePhi name (ht.sound hs) type
  | select condition ifTrue ifFalse =>
    refine (reads_look hlabels condition).bind fun _ hcondition => ?_
    refine (reads_look hlabels ifTrue).bind fun _ htrue => ?_
    refine (reads_look hlabels ifFalse).bind fun _ hfalse => ?_
    have hgive : labels.Give s [condition, ifTrue, ifFalse] [_, _, _] :=
      .cons hcondition (.cons htrue (.cons hfalse .nil))
    exact keeps_makeSelect name hs (hgive.fits hvalues)
  | insertElement vector element index =>
    refine (reads_look hlabels vector).bind fun _ hvector => ?_
    refine (reads_look hlabels element).bind fun _ helement => ?_
    refine (reads_look hlabels index).bind fun _ hindex => ?_
    have hgive : labels.Give s [vector, element, index] [_, _, _] :=
      .cons hvector (.cons helement (.cons hindex .nil))
    exact keeps_makeInsertElement name hs (hgive.fits hvalues)
  | extractElement vector index =>
    refine (reads_look hlabels vector).bind fun _ hvector => ?_
    refine (reads_look hlabels index).bind fun _ hindex => ?_
    have hgive : labels.Give s [vector, index] [_, _] := .cons hvector (.cons hindex .nil)
    exact keeps_makeExtractElement name hs (hgive.fits hvalues)
  | branch target =>
    refine (reads_look hlabels target).bind fun _ htarget => ?_
    have hgive : labels.Give s [target] [_] := .cons htarget .nil
    exact keeps_makeBranch hs (hgive.fits hvalues)
  | branchIf condition ifTrue ifFalse =>
    refine (reads_look hlabels condition).bind fun _ hcondition => ?_
    refine (reads_look hlabels ifTrue).bind fun _ htrue => ?_
    refine (reads_look hlabels ifFalse).bind fun _ hfalse => ?_
    have hgive : labels.Give s [condition, ifTrue, ifFalse] [_, _, _] :=
      .cons hcondition (.cons htrue (.cons hfalse .nil))
    exact keeps_makeBranchIf hs (hgive.fits hvalues)
  | ret value =>
    refine (reads_look hlabels value).bind fun _ hvalue => ?_
    have hgive : labels.Give s [value] [_] := .cons hvalue .nil
    exact keeps_makeReturn hs (hgive.fits hvalues)
  | debugValue wrapper var expression offset =>
    refine (reads_look hlabels wrapper).bind fun slot _ => ?_
    refine (reads_look hlabels var).bind fun var' hvar => ?_
    refine (reads_look hlabels expression).bind fun expression' hexpression => ?_
    have hmake : (makeDebugValue slot ⟨var', expression', offset⟩ name).Keeps
        (.records d (fun _ => False) False) s _ :=
      keeps_makeDebugValue hs (fun _ h => False.elim h) _ hvar.2 hexpression.2
        (fun hd => absurd rfl (hrecords hd wrapper var expression offset)) name
    exact hmake.edits.mono fun _ _ _ h => h.1

/-- A value that has been made is all that is told of it. -/
theorem keeps_creating {act : Act ValueId}
    (hact : act.Keeps (.edits d) s fun id t => t.Has (.value id)) :
    (do return .creation (.value (← act)) : Act Outcome).Keeps (.edits d) s
      fun outcome t => outcome.Sound t :=
  hact.bind fun _ _ _ hid => keeps_pure (sound_creation hid)

theorem keeps_performMake_function (hs : s.Sound) (hlabels : labels.Held s) (name : String)
    (result : Ty) (arguments : List Given) (subprogram context : Given) :
    (performMake labels (.function name result arguments subprogram context)).Keeps (.edits d) s
      fun outcome t => outcome.Sound t := by
  refine (reads_lookAll hlabels arguments).bind fun arguments harguments => ?_
  refine (keeps_formType hs result).bind fun result t (ht : Edited d s t) _ => ?_
  have hlabels' := hlabels.extends ht.toExtends
  refine (reads_look hlabels' subprogram).bind fun subprogram hsubprogram => ?_
  refine (reads_lookContext hlabels' context).bind fun context hcontext => ?_
  exact (keeps_makeFunction (ht.sound hs) name result
    (fun slot hslot => ht.hasIn (harguments.hasIn slot hslot)) hsubprogram.2 hcontext).bind
    fun _ _ _ hid => keeps_pure (sound_creation hid)

/-- An instruction is made and then located. Where records are left to the debug operations, no
record is made out of a wrapper. -/
theorem keeps_performMake_instruction (hs : s.Sound) (hlabels : labels.Held s)
    {form : NewInstruction} {name : String} {loc : Given}
    (hpermitted : (Operation.make (.instruction form name loc)).permitted d labels s = true) :
    (performMake labels (.instruction form name loc)).Keeps (.edits d) s
      fun outcome t => outcome.Sound t := by
  have hrecords : d.records = true → ∀ w v e o, form ≠ .debugValue w v e o := by
    rintro hd w v e o rfl
    exact nomatch Operation.records_of_permitted hpermitted hd
  refine (keeps_makeNew hs hlabels name (Operation.values_of_permitted hpermitted) hrecords).bind
    fun id t (ht : Edited d s t) hid => ?_
  refine (reads_look (hlabels.extends ht.toExtends) loc).bind fun loc hloc => ?_
  have hsetLoc : (update id (·.mapInstruction fun i => { i with loc })).Keeps (.edits d) t _ :=
    keeps_reviseInstruction (ht.sound hs) (fun _ => rfl) (fun _ => rfl) (fun _ _ => hloc.2)
      fun _ h => h
  exact hsetLoc.bind fun _ u (hu : Edited d t u) _ => keeps_pure (sound_creation (hu.has hid))

/-- A record of a value is made in no block, or beside an instruction. -/
theorem keeps_performMake_bind (hs : s.Sound) (hlabels : labels.Held s)
    (value var expression loc : Given) (offset : Int) (place : RecordPlace) :
    (performMake labels (.bind value var expression loc offset place)).Keeps (.edits d) s
      fun outcome t => outcome.Sound t := by
  refine (reads_look hlabels value).bind fun value _ => ?_
  refine (reads_look hlabels var).bind fun var hvar => ?_
  refine (reads_look hlabels expression).bind fun expression hexpression => ?_
  refine (reads_look hlabels loc).bind fun loc hloc => ?_
  have hold : ∀ v : ValueId, False → s.Has (.value v) := fun _ h => False.elim h
  cases place with
  | detached =>
    have hmake : (makeRecord value { var, expression, offset } loc).Keeps
        (.records d (fun _ => False) False) s _ :=
      keeps_makeRecord hs hold value _ hvar.2 hexpression.2 hloc.2
    exact keeps_creating (hmake.edits.mono fun _ _ _ h => h.1)
  | beside before after =>
    refine (reads_look hlabels before).bind fun before _ => ?_
    refine (reads_look hlabels after).bind fun after _ => ?_
    have hbind : (bindValue value { var, expression, offset } loc before after).Keeps
        (.records d (fun _ => False) False) s _ :=
      keeps_bindValue hs hold value _ hvar.2 hexpression.2 hloc.2 before after
    exact keeps_creating hbind.edits

/-- Values are made of what is there, among them the operands that the discipline lets users have.
-/
theorem keeps_performMake (hs : s.Sound) (hlabels : labels.Held s) {value : NewValue}
    (hpermitted : (Operation.make value).permitted d labels s = true) :
    (performMake labels value).Keeps (.edits d) s fun outcome t => outcome.Sound t := by
  have hvalues := Operation.values_of_permitted hpermitted
  cases value with
  | constant literal type context =>
    refine (keeps_formType hs type).bind fun type t (ht : Edited d s t) _ => ?_
    have hlabels' := hlabels.extends ht.toExtends
    refine (reads_lookContext hlabels' context).bind fun context hcontext => ?_
    exact keeps_creating (keeps_makeConstant (ht.sound hs) literal type hcontext)
  | undef type context =>
    refine (keeps_formType hs type).bind fun type t (ht : Edited d s t) _ => ?_
    have hlabels' := hlabels.extends ht.toExtends
    refine (reads_lookContext hlabels' context).bind fun context hcontext => ?_
    exact keeps_creating (keeps_makeUndef (ht.sound hs) type hcontext)
  | argument name type =>
    refine (keeps_formType hs type).bind fun type t (ht : Edited d s t) _ => ?_
    exact keeps_creating (keeps_makeArgument (ht.sound hs) type name)
  | global name type initializer =>
    refine (keeps_formType hs type).bind fun type t (ht : Edited d s t) _ => ?_
    refine (reads_look (hlabels.extends ht.toExtends) initializer).bind fun _ hinitializer => ?_
    exact keeps_creating (keeps_makeGlobal (ht.sound hs) type name hinitializer.2)
  | function name result arguments subprogram context =>
    exact keeps_performMake_function hs hlabels name result arguments subprogram context
  | block name instructions =>
    refine (reads_lookAll hlabels instructions).bind fun instructions hinstructions => ?_
    exact keeps_creating (keeps_makeBlock hs name hinstructions.hasIn)
  | user operands type name =>
    refine (reads_lookAll hlabels operands).bind fun operands hoperands => ?_
    refine (keeps_formType hs type).bind fun type t (ht : Edited d s t) _ => ?_
    have hfits := (hoperands.extends ht.toExtends).fits hvalues
    exact keeps_creating (keeps_makeUser (ht.sound hs) hfits type name)
  | instruction form name loc =>
    exact keeps_performMake_instruction hs hlabels hpermitted
  | bind value var expression loc offset place =>
    exact keeps_performMake_bind hs hlabels value var expression loc offset place

end SsaDebugInfo.Script
