import SsaDebugInfo.Expression
import SsaDebugInfo.Ir.Build

/-!
# The written form of the IR

How values are written as operands and as entities of their own, how metadata nodes are written, and
the text of blocks, functions and modules. In a block, a comment line in front of an instruction
tells where it comes from whenever that differs from the instruction before.
-/

namespace SsaDebugInfo

namespace Store

variable (s : Store)

/-! ## Metadata nodes -/

/-- A text field of a node. -/
def printTextField (name text : String) : String :=
  name ++ ": \"" ++ text ++ "\""

/-- A block as it is shown among metadata. -/
def printBlockName (name : String) : String :=
  "<dbgprop.compiler.ir.BasicBlock " ++ Text.Quoted.encode name ++ ">"

/-- An object as it is shown among metadata when it is no node: nothing but blocks have a form of
their own. -/
def printForeign (ref : Ref) : String :=
  match ref with
  | .value id =>
    match s.get? id with
    | some v => if v.isBlock then printBlockName (v.name?.getD "") else "<value>"
    | none => "<value>"
  | _ => "<object>"

/-- A field of a node that refers to an object: of a node only the kind is shown. An empty field is
left out. -/
def printSlotField (name : String) (slot : Slot) : List String :=
  match slot with
  | none => []
  | some ref =>
    let text := match s.nodeIn? slot with
      | some n => "!" ++ n.kindName
      | none => s.printForeign ref
    [name ++ ": " ++ text]

/-- The fields of a node in their written order. -/
def printFields : Node → List String
  | .file filename directory =>
    [printTextField "filename" filename, printTextField "directory" directory]
  | .unit file producer _ _ =>
    s.printSlotField "file" file ++ [printTextField "producer" producer]
  | .subprogram name file line _ linkage =>
    [printTextField "name" name] ++ linkage.toList.map (printTextField "linkageName") ++
      s.printSlotField "file" file ++ ["line: " ++ toString line]
  | .location line column scope inlinedAt =>
    ["line: " ++ toString line, "column: " ++ toString column] ++
      s.printSlotField "scope" scope ++ s.printSlotField "inlinedAt" inlinedAt
  | .localVariable name scope file line _ | .globalVariable name scope file line _ =>
    [printTextField "name" name] ++ s.printSlotField "scope" scope ++
      s.printSlotField "file" file ++ ["line: " ++ toString line]
  | _ => []

/-- The written form of a node, given that of the values that handles refer to. A handle is written
as its value, or as deleted once the value is gone. Numbers are written whatever their length. -/
def printNodeWith (operand : ValueId → Except Fault String) (id : NodeId) :
    Except Fault String := do
  let n ← found (s.get? id)
  match n with
  | .expression elements => return Expression.print elements
  | .constantHandle v | .localHandle v =>
    if (s.get? v).isSome then operand v
    else return "!" ++ n.kindName ++ "(<deleted>)"
  | _ => return "!" ++ n.kindName ++ "(" ++ ", ".intercalate (s.printFields n) ++ ")"

/-! ## Values as operands -/

/-- The written form of a value as an operand. What a wrapper wraps is older than the wrapper, so
that `fuel` need not exceed the number of values up to this one. It has been handed over, and not
computed, so that none of its numbers is too long to be written. -/
def operandTextWithin : Nat → ValueId → Except Fault String
  | 0, _ => .error .noSuchMember
  | fuel + 1, id => do
    let v ← found (s.get? id)
    match v.shape with
    | .constant literal => return v.type.print ++ " " ++ literal.print
    | .undef => return v.type.print ++ " undef"
    | .wrapper node => return "metadata " ++ (← s.printNodeWith (operandTextWithin fuel) node)
    | .global g => return v.type.print ++ "* @" ++ Text.Identifier.print g.name
    | .argument site | .block site _ | .user site _ | .instruction site _ _ =>
      return v.type.print ++ " %" ++ Text.Identifier.print site.name

/-- The written form of a value as an operand. -/
def operandText (id : ValueId) : Except Fault String :=
  s.operandTextWithin (id.index + 1) id

/-- The written form of what stands in an operand's place. -/
def slotText (slot : Slot) : Except Fault String := do
  s.operandText (← found slot.value?)

/-- The written form of a node. The expression of a record may have been computed, and hold a number
that is too long to be written. -/
def printNode (id : NodeId) : Except Fault String := do
  match ← found (s.get? id) with
  | .expression elements => Expression.write elements
  | _ => s.printNodeWith s.operandText id

/-- A debug record's variable or expression as it is written. -/
def printDescribed (slot : Slot) : Except Fault String :=
  match slot with
  | none => .ok "None"
  | some (.node id) => s.printNode id
  | some ref => .ok (s.printForeign ref)

/-! ## Where things come from -/

/-- The file name in a slot for a file. -/
def filenameInFile (slot : Slot) : Except Fault (Option String) :=
  match slot with
  | none => .ok none
  | _ =>
    match s.nodeIn? slot with
    | some (.file filename _) => .ok (some filename)
    | _ => .error .noSuchMember

/-- The file name that a node answers for itself. A scope of a location may be a location, but is
always older, so that `fuel` need not exceed the number of nodes up to this one. -/
def filenameOfWithin : Nat → NodeId → Except Fault (Option String)
  | 0, _ => .error .noSuchMember
  | fuel + 1, id => do
    let ofScope (slot : Slot) : Except Fault (Option String) :=
      match slot with
      | none => .ok none
      | some (.node scope) =>
        match s.get? scope with
        | some (.file filename _) => .ok (some filename)
        | _ => filenameOfWithin fuel scope
      | some _ => .error .noSuchMember
    match ← found (s.get? id) with
    | .scope => return none
    | .unit file _ _ _ | .subprogram _ file _ _ _ => s.filenameInFile file
    | .location _ _ scope _ => ofScope scope
    | .globalVariable _ scope file _ _ =>
      if file.isSome then s.filenameInFile file else ofScope scope
    | .file .. => .error .notCallable
    | _ => .error .noSuchMember

/-- The file name that an object answers for itself: scopes, locations and global descriptors do. -/
def filenameOf (slot : Slot) : Except Fault (Option String) := do
  let id ← found slot.node?
  s.filenameOfWithin (id.index + 1) id

/-- The line and column of a location. -/
def positionOf (slot : Slot) : Except Fault (Int × Int) :=
  match s.nodeIn? slot with
  | some (.location line column _ _) => .ok (line, column)
  | _ => .error .noSuchMember

/-- A comment that tells where the instructions after it come from. -/
def locationComment (loc : Slot) : Except Fault String := do
  if loc.isNone then return "; <synthesized>"
  let filename ← s.filenameOf loc
  let (line, column) ← s.positionOf loc
  return "; " ++ filename.getD "None" ++ ":" ++ toString line ++ ":" ++ toString column

/-! ## Values as entities -/

/-- What flows into a join, as it is written. -/
def incomingText (incoming : Slot × Slot) : Except Fault String := do
  let name ← found (incoming.2.bind s.nameOf?)
  return "%" ++ Text.Identifier.print name ++ " => " ++ (← s.slotText incoming.1)

/-- The operands of an instruction as they are written after its opcode. -/
def operandsText (operands : List Slot) : Opcode → Except Fault String
  | .phi => do
    return "[" ++ ", ".intercalate (← (pairs operands).mapM s.incomingText) ++ "]"
  | .debugValue binding => do
    return ", ".intercalate
      [← s.slotText operands.head?.join, "i64 " ++ toString binding.offset,
        ← s.printDescribed binding.var, ← s.printDescribed binding.expression]
  | _ => do return ", ".intercalate (← operands.mapM s.slotText)

/-- An instruction as it is written in a block. A join is named even if it holds nothing. -/
def instructionText (v : Value) (site : Site) (operands : List Slot) (i : Instruction) :
    Except Fault String := do
  let target :=
    if v.type.isVoid && i.opcode != .phi then ""
    else "%" ++ Text.Identifier.print site.name ++ " = " ++ v.type.print ++ " "
  let operandText ←
    if operands.any (·.isSome) then (" " ++ ·) <$> s.operandsText operands i.opcode
    else pure (if i.opcode = .phi then " [???]" else "")
  return target ++ i.opcode.print ++ operandText

/-- The written form of a value other than a block as an entity of its own. -/
def entityText (id : ValueId) : Except Fault String := do
  let v ← found (s.get? id)
  match v.shape with
  | .constant _ | .undef | .wrapper _ | .argument _ => s.operandText id
  | .global g =>
    let name := Text.Identifier.print g.name
    match g.initializer with
    | none => return "@" ++ name ++ " = external global " ++ v.type.print
    | initializer => return "@" ++ name ++ " = global " ++ (← s.slotText initializer)
  | .instruction site operands i => s.instructionText v site operands i
  | .block .. | .user .. => .error .noSuchMember

/-! ## Blocks, functions and modules -/

/-- The first line of a block: its name and, within a function, the names of the blocks that lead to
it. -/
def blockHeader (id : ValueId) (site : Site) : Except Fault String := do
  let label := Text.Identifier.print site.name ++ ":"
  if site.function.isNone then return label
  let names ← (s.predecessors id).mapM fun block =>
    found (block.bind fun block => s.nameOf? (.value block))
  return label ++ " ; predecessors: " ++
    ", ".intercalate (Text.sorted (names.map Text.Identifier.print))

/-- The lines of a block's instructions. `current` is where the instruction before came from. -/
def instructionLines (locs : Bool) (current : Slot) : List Slot → Except Fault (List String)
  | [] => .ok []
  | slot :: rest => do
    let loc ← if locs then (·.2.loc) <$> found (s.instructionIn? slot) else pure current
    let comment ← if loc = current then pure [] else List.singleton <$> s.locationComment loc
    let line := "  " ++ (← s.entityText (← found slot.value?))
    return comment ++ line :: (← instructionLines locs loc rest)

/-- The text of a block, with or without the comments on where its instructions come from. -/
def blockText (locs : Bool) (id : ValueId) : Except Fault String := do
  let v ← found (s.get? id)
  match v.shape with
  | .block site instructions =>
    let header ← s.blockHeader id site
    return "\n".intercalate (header :: (← s.instructionLines locs none instructions))
  | _ => .error .noSuchMember

/-- The text of any value as an entity of its own. -/
def valueText (locs : Bool) (id : ValueId) : Except Fault String := do
  let v ← found (s.get? id)
  if v.isBlock then s.blockText locs id else s.entityText id

/-- The text of a function. -/
def functionText (locs : Bool) (id : FunctionId) : Except Fault String := do
  let f ← found (s.get? id)
  let arguments ← f.arguments.mapM s.slotText
  let blocks ← f.blocks.mapM (s.valueText locs)
  let header := f.result.print ++ " " ++ f.name ++ "(" ++ ", ".intercalate arguments ++ ") \x7b"
  return "\n".intercalate (header :: blocks ++ ["\x7d"])

/-- The text of a module. -/
def moduleText (locs : Bool) (id : ModuleId) : Except Fault String := do
  let m ← found (s.get? id)
  let globals ← m.globals.mapM s.entityText
  let functions ← m.functions.mapM (s.functionText locs)
  return "\n".intercalate (("; module " ++ m.name) :: globals ++ functions)

end Store

end SsaDebugInfo
