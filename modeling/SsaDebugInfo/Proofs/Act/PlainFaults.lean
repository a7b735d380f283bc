import SsaDebugInfo.Proofs.Act.Conduct
import SsaDebugInfo.Script.Outcome
import SsaDebugInfo.Records.Scatter
import SsaDebugInfo.Diagnostics.Emitter

/-!
# Questions fault plainly

Writing the program down, measuring types, indexing descriptors and walking chains read the store
and can fault in many ways, but never with a fault that tells of names or uses out of step.
-/

namespace SsaDebugInfo

section Combining

variable {α β : Type}

theorem plain_pure (a : α) : Plain (pure a : Except Fault α) := plain_ok a

/-- Steps in sequence have plain faults if both have. -/
theorem Plain.bind {x : Except Fault α} {f : α → Except Fault β} (hx : Plain x)
    (hf : ∀ a, Plain (f a)) : Plain (x >>= f) := by
  cases x with
  | ok a => exact hf a
  | error e => exact plain_error (hx e rfl)

theorem Plain.map {x : Except Fault α} (hx : Plain x) (f : α → β) : Plain (f <$> x) := by
  cases x with
  | ok a => exact plain_ok _
  | error e => exact plain_error (hx e rfl)

/-- So have steps for each entry of a list. -/
theorem plain_mapM {f : α → Except Fault β} (l : List α) (h : ∀ a, Plain (f a)) :
    Plain (l.mapM f) := by
  induction l with
  | nil => exact plain_ok _
  | cons a rest ih =>
    rw [List.mapM_cons]
    exact (h a).bind fun _ => ih.bind fun _ => plain_pure _

theorem plain_option_mapM {f : α → Except Fault β} (o : Option α) (h : ∀ a, Plain (f a)) :
    Plain (o.mapM f) := by
  cases o with
  | none => exact plain_ok _
  | some a => exact (h a).map some

end Combining

/-- A number that is too long to be written is a plain fault. -/
theorem Expression.plain_write (elements : List Int) : Plain (write elements) := by
  unfold write
  split
  · exact plain_ok _
  · exact plain_error rfl

namespace Store

variable (s : Store)

/-! ## Texts -/

/-- Nodes are written with plain faults if the operands in them are. -/
theorem plain_printNodeWith {operand : ValueId → Except Fault String}
    (h : ∀ v, Plain (operand v)) (id : NodeId) : Plain (s.printNodeWith operand id) := by
  refine (plain_found _).bind fun n => ?_
  split
  · exact plain_pure _
  · split
    · exact h _
    · exact plain_pure _
  · split
    · exact h _
    · exact plain_pure _
  · exact plain_pure _

/-- By induction on the depth: an operand may be a wrapper, whose node holds operands. -/
theorem plain_operandTextWithin (fuel : Nat) (id : ValueId) :
    Plain (s.operandTextWithin fuel id) := by
  induction fuel generalizing id with
  | zero => exact plain_error rfl
  | succ fuel ih =>
    refine (plain_found _).bind fun v => ?_
    split
    case h_3 => exact (s.plain_printNodeWith ih _).bind fun _ => plain_pure _
    all_goals exact plain_pure _

theorem plain_operandText (id : ValueId) : Plain (s.operandText id) :=
  s.plain_operandTextWithin _ id

theorem plain_slotText (slot : Slot) : Plain (s.slotText slot) :=
  (plain_found _).bind fun id => s.plain_operandText id

theorem plain_printNode (id : NodeId) : Plain (s.printNode id) := by
  refine (plain_found _).bind fun n => ?_
  split
  · exact Expression.plain_write _
  · exact s.plain_printNodeWith s.plain_operandText id

theorem plain_printDescribed (slot : Slot) : Plain (s.printDescribed slot) := by
  unfold printDescribed
  split
  · exact plain_ok _
  · exact s.plain_printNode _
  · exact plain_ok _

/-- A slot without a file is a plain fault. -/
theorem plain_filenameInFile (slot : Slot) : Plain (s.filenameInFile slot) := by
  unfold filenameInFile
  split
  · exact plain_ok _
  · split
    · exact plain_ok _
    · exact plain_error rfl

/-- The file name of what a node stands in, once every node answers for itself. -/
theorem plain_filenameOfScope {fuel : Nat} (h : ∀ id, Plain (s.filenameOfWithin fuel id))
    (slot : Slot) :
    Plain (match slot with
      | none => .ok none
      | some (.node scope) =>
        match s.get? scope with
        | some (.file filename _) => .ok (some filename)
        | _ => s.filenameOfWithin fuel scope
      | some _ => .error .noSuchMember) := by
  split
  · exact plain_ok _
  · split
    · exact plain_ok _
    · exact h _
  · exact plain_error rfl

/-- By induction on the depth, along the parents of a scope. -/
theorem plain_filenameOfWithin (fuel : Nat) (id : NodeId) :
    Plain (s.filenameOfWithin fuel id) := by
  induction fuel generalizing id with
  | zero => exact plain_error rfl
  | succ fuel ih =>
    have hscope := s.plain_filenameOfScope ih
    refine (plain_found _).bind fun n => ?_
    split
    · exact plain_pure _
    · exact s.plain_filenameInFile _
    · exact s.plain_filenameInFile _
    · exact hscope _
    · split
      · exact s.plain_filenameInFile _
      · exact hscope _
    · exact plain_error rfl
    · exact plain_error rfl

theorem plain_filenameOf (slot : Slot) : Plain (s.filenameOf slot) :=
  (plain_found _).bind fun id => s.plain_filenameOfWithin _ id

theorem plain_positionOf (slot : Slot) : Plain (s.positionOf slot) := by
  unfold positionOf
  split
  · exact plain_ok _
  · exact plain_error rfl

theorem plain_locationComment (loc : Slot) : Plain (s.locationComment loc) := by
  unfold locationComment
  split
  · exact plain_pure _
  · exact (s.plain_filenameOf loc).bind fun _ => (s.plain_positionOf loc).bind fun _ => plain_pure _

theorem plain_operandsText (operands : List Slot) (opcode : Opcode) :
    Plain (s.operandsText operands opcode) := by
  unfold operandsText
  split
  · refine (plain_mapM _ fun incoming => ?_).bind fun _ => plain_pure _
    exact (plain_found _).bind fun _ => (s.plain_slotText _).bind fun _ => plain_pure _
  · refine (s.plain_slotText _).bind fun _ => ?_
    exact (s.plain_printDescribed _).bind fun _ =>
      (s.plain_printDescribed _).bind fun _ => plain_pure _
  · exact (plain_mapM _ s.plain_slotText).bind fun _ => plain_pure _

theorem plain_instructionText (v : Value) (site : Site) (operands : List Slot) (i : Instruction) :
    Plain (s.instructionText v site operands i) := by
  unfold instructionText
  dsimp only
  split
  · exact ((s.plain_operandsText _ _).map _).bind fun _ => plain_pure _
  · exact (plain_pure _).bind fun _ => plain_pure _

theorem plain_entityText (id : ValueId) : Plain (s.entityText id) := by
  refine (plain_found _).bind fun v => ?_
  split
  case h_5 =>
    dsimp only
    split
    · exact plain_pure _
    · exact (s.plain_slotText _).bind fun _ => plain_pure _
  case h_6 => exact s.plain_instructionText _ _ _ _
  case h_7 => exact plain_error rfl
  case h_8 => exact plain_error rfl
  all_goals exact s.plain_operandText _

/-- By recursion on the list, with the location that the lines are at. -/
theorem plain_instructionLines (locs : Bool) (current : Slot) (slots : List Slot) :
    Plain (s.instructionLines locs current slots) := by
  induction slots generalizing current with
  | nil => exact plain_ok _
  | cons slot rest ih =>
    have hline : ∀ (loc : Slot) (comment : List String), Plain (do
        let line := "  " ++ (← s.entityText (← found slot.value?))
        return comment ++ line :: (← s.instructionLines locs loc rest)) := fun loc comment =>
      (plain_found _).bind fun _ => (s.plain_entityText _).bind fun _ => (ih loc).bind fun _ =>
        plain_pure _
    have hcomment : ∀ loc : Slot, Plain (do
        let comment ← if loc = current then pure [] else List.singleton <$> s.locationComment loc
        let line := "  " ++ (← s.entityText (← found slot.value?))
        return comment ++ line :: (← s.instructionLines locs loc rest)) := by
      intro loc
      dsimp only
      split
      · exact (plain_pure _).bind fun comment => hline loc comment
      · exact ((s.plain_locationComment loc).map _).bind fun comment => hline loc comment
    unfold instructionLines
    dsimp only
    split
    · exact ((plain_found _).map _).bind fun loc => hcomment loc
    · exact (plain_pure _).bind fun loc => hcomment loc

theorem plain_blockText (locs : Bool) (id : ValueId) : Plain (s.blockText locs id) := by
  refine (plain_found _).bind fun v => ?_
  split
  · next site instructions _ =>
    have hheader : Plain (s.blockHeader id site) := by
      unfold blockHeader
      dsimp only
      split
      · exact plain_pure _
      · exact (plain_mapM _ fun _ => plain_found _).bind fun _ => plain_pure _
    exact hheader.bind fun _ => (s.plain_instructionLines locs none instructions).bind fun _ =>
      plain_pure _
  · exact plain_error rfl

theorem plain_valueText (locs : Bool) (id : ValueId) : Plain (s.valueText locs id) := by
  refine (plain_found _).bind fun v => ?_
  split
  · exact s.plain_blockText locs id
  · exact s.plain_entityText id

theorem plain_functionText (locs : Bool) (id : FunctionId) : Plain (s.functionText locs id) := by
  refine (plain_found _).bind fun f => (plain_mapM _ s.plain_slotText).bind fun _ => ?_
  exact (plain_mapM _ (s.plain_valueText locs)).bind fun _ => plain_pure _

theorem plain_moduleText (locs : Bool) (id : ModuleId) : Plain (s.moduleText locs id) := by
  refine (plain_found _).bind fun m => (plain_mapM _ s.plain_entityText).bind fun _ => ?_
  exact (plain_mapM _ (s.plain_functionText locs)).bind fun _ => plain_pure _

end Store

/-! ## Diagnostics -/

namespace Diagnostic

variable (d : Diagnostic) (s : Store)

theorem plain_argument (arguments : List (String × Literal)) (place : List Char) :
    Plain (Text.Template.argument arguments place) := by
  unfold Text.Template.argument
  dsimp only
  split
  · exact plain_error rfl
  · split
    · exact plain_error rfl
    · split
      · exact plain_error rfl
      · exact plain_ok _

/-- A template is filled with plain faults, place by place. -/
theorem plain_fillFrom (arguments : List (String × Literal)) (place : Option (List Char))
    (text : List Char) : Plain (Text.Template.fillFrom arguments place text) := by
  fun_induction Text.Template.fillFrom arguments place text with
  | case1 => exact plain_ok _
  | case3 rest ih => exact ih.bind fun _ => plain_pure _
  | case4 rest ih => exact ih.bind fun _ => plain_pure _
  | case5 rest _ ih => exact ih
  | case7 c rest _ _ _ _ ih => exact ih.bind fun _ => plain_pure _
  | case9 place rest ih =>
    exact (plain_argument arguments _).bind fun _ => ih.bind fun _ => plain_pure _
  | case10 place c rest _ _ ih => exact ih
  | _ => exact plain_error rfl

theorem plain_message : Plain d.message := by
  unfold message
  split
  · exact plain_ok _
  · exact (plain_fillFrom d.arguments none d.reason.toList).map String.ofList

/-- A diagnostic that lacks its location has no line. -/
theorem plain_line : Plain (d.line s) := by
  unfold line
  split
  · exact plain_ok _
  · split
    case h_5 => exact plain_error rfl
    all_goals exact plain_ok _

theorem plain_headline : Plain (d.headline s) := by
  have hposition : Plain (d.position s) := by
    unfold position
    split
    · exact plain_ok _
    · exact (s.plain_filenameOf _).bind fun _ => (d.plain_line s).bind fun _ => plain_pure _
  exact hposition.bind fun _ => d.plain_message.bind fun _ => plain_pure _

/-- Rendering a diagnostic has plain faults, its headline, line and text included. -/
theorem plain_render : Plain (d.render s) := by
  have hfunction : Plain (d.functionLine s) := by
    unfold functionLine
    split
    · exact plain_ok _
    · exact (plain_found _).bind fun _ => plain_pure _
  have hnote : ∀ note, Plain (noteLine s note) := by
    intro note
    unfold noteLine
    split
    · exact (plain_found _).bind fun d => d.plain_headline s
    · exact plain_error rfl
  exact (d.plain_headline s).bind fun _ => hfunction.bind fun _ =>
    (plain_mapM _ hnote).bind fun _ => plain_pure _

theorem plain_print : Plain d.print :=
  d.plain_message.bind fun _ => plain_pure _

end Diagnostic

/-! ## Sizes -/

/-- A type that the target cannot measure is a plain fault, and no other one comes of it. -/
theorem Ty.plain_leafSizeInBits (bytes : Ty → Option Nat) (t : Ty) :
    Plain (t.leafSizeInBits bytes) := by
  unfold leafSizeInBits
  split
  case h_6 =>
    split
    · exact plain_ok _
    · exact plain_error rfl
  case h_1 => exact plain_ok _
  all_goals exact plain_error rfl

namespace Layout

/-- Remembering a size changes nothing about the fault. -/
theorem plain_remember (key : String) {found : Except Fault Int × List (String × Int)}
    (h : Plain found.1) : Plain (remember key found).1 := by
  obtain ⟨_ | _, cache⟩ := found
  · exact h
  · exact plain_ok _

/-- By recursion on the type, along the cache that is handed on. -/
theorem plain_query (bytes : Ty → Option Nat) (t : Ty) (cache : List (String × Int)) :
    Plain (query bytes t cache).1 := by
  fun_induction query bytes t cache with
  | case1 => exact plain_ok _
  | case2 cache count element _ result cache' hquery ih =>
    rw [hquery] at ih
    refine plain_remember _ ?_
    cases result with
    | ok bits => exact plain_ok _
    | error fault => exact plain_error (ih fault rfl)
  | case3 => exact plain_ok _
  | case4 => exact plain_remember _ (Ty.plain_leafSizeInBits bytes _)

theorem plain_sizeInBits (layout : Layout) (t : Ty) : Plain (layout.sizeInBits t).1 :=
  plain_query layout.target.bytes? t layout.cache

end Layout

/-! ## Debug records -/

/-- That an element lies outside its piece is no matter of names or uses, explained or not. -/
theorem Fault.isBookkeeping_ofExcess (index : Int) (insert : String) (width offset size : Int) :
    (ofExcess index insert width offset size).isBookkeeping = false := by
  unfold ofExcess
  split <;> rfl

namespace Store

variable (s : Store)

theorem plain_unwrap (operand : Slot) : Plain (s.unwrap operand) :=
  (plain_found _).bind fun _ => (plain_found _).bind fun _ => (plain_found _).bind fun _ =>
    plain_pure _

theorem plain_describedName (debugValue : ValueId) : Plain (s.describedName debugValue) :=
  (plain_found _).bind fun _ => plain_found _

theorem plain_migrationText (debugValue : ValueId) (old new : Slot) :
    Plain (s.migrationText debugValue old new) :=
  (s.plain_describedName _).bind fun _ => (s.plain_slotText _).bind fun _ =>
    (s.plain_slotText _).bind fun _ => plain_pure _

/-- By induction on the steps that are left. -/
theorem plain_chainWithin (fuel : Nat) (slot : Slot) : Plain (s.chainWithin fuel slot) := by
  induction fuel generalizing slot with
  | zero => exact plain_error rfl
  | succ fuel ih =>
    unfold chainWithin
    split
    · exact plain_ok _
    · split
      · split
        · exact plain_error rfl
        · exact (ih _).map _
      · exact plain_ok _

theorem plain_chain (slot : Slot) : Plain (s.chain slot) :=
  s.plain_chainWithin _ slot

theorem plain_indexLiteral (slot : Slot) : Plain (s.indexLiteral slot) := by
  unfold indexLiteral
  split
  · split
    · exact plain_ok _
    · exact plain_ok _
    · split <;> exact plain_error rfl
    · exact plain_error rfl
  · split <;> exact plain_error rfl
  · exact plain_error rfl

/-- A literal that is no number is a plain fault. -/
theorem plain_toInt (literal : Literal) : Plain literal.toInt := by
  cases literal with
  | text text =>
    show Plain ((Text.Numeral.read? text).elim (.error .notANumeral) .ok)
    cases Text.Numeral.read? text with
    | none => exact plain_error rfl
    | some n => exact plain_ok n
  | absent => exact plain_error rfl
  | list items => exact plain_error rfl
  | record fields => exact plain_error rfl
  | _ => exact plain_ok _

/-- The offset of an element, once its index is known. -/
theorem plain_offsetWithin (width : Int) (parent : Option Expression.BitPiece) (insert : ValueId)
    (index : Int) :
    Plain (match parent with
      | none => pure (index * width)
      | some piece =>
        if index * width + width > piece.size then do
          .error (.ofExcess index (← s.operandText insert) width (index * width) piece.size)
        else pure (index * width + piece.offset)) := by
  split
  · exact plain_pure _
  · split
    · exact (s.plain_operandText _).bind fun _ => plain_error (Fault.isBookkeeping_ofExcess ..)
    · exact plain_pure _

/-- An element outside its piece is a plain fault, as is one that cannot be told of. -/
theorem plain_pieceOffset (width : Int) (parent : Option Expression.BitPiece) (insert : ValueId) :
    Plain (s.pieceOffset width parent insert) := by
  unfold pieceOffset
  dsimp only
  split
  · exact plain_error rfl
  · refine (s.plain_indexLiteral _).bind fun literal => ?_
    exact (plain_toInt literal).bind (s.plain_offsetWithin width parent insert)

theorem plain_parentPiece (expression : Slot) : Plain (s.parentPiece expression) := by
  unfold parentPiece
  split
  · exact plain_ok _
  · exact (plain_found _).bind fun _ => plain_pure _

end Store

/-! ## Answers -/

namespace Script

namespace View

variable (view : View)

/-- Whatever is watched, its text is read with plain faults. -/
theorem plain_text (ref : Ref) : Plain (view.text ref) := by
  unfold text
  split
  · exact view.store.plain_valueText _ _
  · exact view.store.plain_printNode _
  · exact plain_found _
  · exact plain_found _
  · exact plain_ok _

theorem plain_name (ref : Ref) : Plain (view.name ref) := by
  unfold name
  split
  · exact plain_ok _
  · exact (view.plain_text ref).bind fun _ => plain_pure _

theorem plain_shown (slot : Slot) : Plain (view.shown slot) := by
  cases slot with
  | none => exact plain_ok _
  | some ref => exact (view.plain_name ref).bind fun _ => plain_pure _

/-- What is shown of an object is read with plain faults, kind by kind. -/
theorem plain_info (ref : Ref) : Plain (view.info ref) := by
  have hplace : ∀ i : Instruction, Plain (do
      return (← view.shown (i.block.map Ref.value), ← view.shown i.loc)) := fun _ =>
    (view.plain_shown _).bind fun _ => (view.plain_shown _).bind fun _ => plain_pure _
  have hbinding : ∀ binding : Binding, Plain (do
      return (← view.shown binding.var, ← view.shown binding.expression, binding.offset)) :=
    fun _ => (view.plain_shown _).bind fun _ => (view.plain_shown _).bind fun _ => plain_pure _
  refine (plain_found _).bind fun ⟨_, v⟩ => ?_
  refine (plain_mapM _ fun _ => view.plain_name _).bind fun uses => ?_
  refine (plain_option_mapM _ fun _ => view.plain_shown _).bind fun function => ?_
  have hrest : ∀ operands, Plain (do
      let place ← v.instruction?.mapM fun i => do
        return (← view.shown (i.block.map Ref.value), ← view.shown i.loc)
      let binding ← v.binding?.mapM fun binding => do
        return (← view.shown binding.var, ← view.shown binding.expression, binding.offset)
      return { type := v.type.print, uses := Text.sorted uses, name := v.name?, function, operands,
               place, binding : Info }) := fun _ =>
    (plain_option_mapM _ hplace).bind fun _ => (plain_option_mapM _ hbinding).bind fun _ =>
      plain_pure _
  dsimp only
  split
  · exact ((plain_mapM _ view.plain_shown).map some).bind hrest
  · exact (plain_pure none).bind hrest

theorem plain_report (id : DiagnosticId) : Plain (view.report id) :=
  (plain_found _).bind fun d => d.plain_message.bind fun _ => (view.plain_shown _).bind fun _ =>
    (view.plain_shown _).bind fun _ => (d.plain_line _).bind fun _ =>
      (d.plain_render _).bind fun _ => (d.plain_headline _).bind fun _ =>
        d.plain_print.bind fun _ => plain_pure _

/-- A dump has plain faults, whatever is dumped. -/
theorem plain_dump (locs : Bool) (slot : Slot) : Plain (view.dump locs slot) := by
  unfold dump
  split
  · exact plain_ok _
  · exact view.store.plain_valueText _ _
  · exact view.store.plain_printNode _
  · exact view.store.plain_functionText _ _
  · exact view.store.plain_moduleText _ _
  · exact (plain_found _).bind fun _ => plain_pure _
  · exact (plain_found _).bind fun d => d.plain_print
  · exact plain_ok _

theorem plain_showAmongOthers (slot : Slot) : Plain (view.showAmongOthers slot) := by
  unfold showAmongOthers
  split
  · exact view.store.plain_printNode _
  · exact plain_ok _
  · exact view.plain_dump _ _

end View

theorem Labels.plain_get (labels : Labels) (given : Given) : Plain (labels.get given) := by
  unfold get
  split
  · exact plain_ok _
  · split
    · exact plain_ok _
    · exact plain_error rfl

end Script

end SsaDebugInfo
