import SsaDebugInfo.Ir.Placement

/-!
# Making values

How values, functions and instructions come to be. An instruction is made detached; what its
operands have to be is required before it exists.
-/

namespace SsaDebugInfo

/-- The value in a slot, which is required to hold one. -/
def requireValue (slot : Slot) : Act Value := do
  match (← get).valueIn? slot with
  | some (_, v) => pure v
  | none => throw .unmetRequirement

/-- A constant, owned by a context if one is named. -/
def makeConstant (literal : Literal) (type : Ty) (context : Option ContextId) : Act ValueId :=
  create .value { type, shape := .constant literal, context }

/-- An undefined value, owned by a context if one is named. -/
def makeUndef (type : Ty) (context : Option ContextId) : Act ValueId :=
  create .value { type, shape := .undef, context }

/-- An argument, in no function yet. -/
def makeArgument (type : Ty) (name : String) : Act ValueId :=
  create .value { type, shape := .argument { name } }

/-- A global variable, in no module yet. -/
def makeGlobal (type : Ty) (name : String) (initializer : Slot) : Act ValueId :=
  create .value { type, shape := .global { name, initializer } }

/-- A function with its arguments, whose types are its parameters. -/
def makeFunction (name : String) (result : Ty) (arguments : List Slot) (subprogram : Slot)
    (context : Option ContextId) : Act FunctionId := do
  let parameters ← arguments.mapM typeIn
  let id ← create .function { name, result, parameters, subprogram, context }
  setArguments id arguments
  return id

/-- A block that holds the given instructions. -/
def makeBlock (name : String) (insns : List Slot) : Act ValueId := do
  let id ← create .value { type := ← newLabelType, shape := .block { name } [] }
  setInstructions id insns
  return id

/-- A user that is no instruction. -/
def makeUser (operands : List Slot) (type : Ty) (name : String) : Act ValueId := do
  let id ← create .value { type, shape := .user { name } [] }
  setOperands id operands
  return id

/-- An instruction whose operands are known to be fit. -/
def makeInstruction (opcode : Opcode) (operands : List Slot) (type : Ty) (name : String) :
    Act ValueId := do
  let id ← create .value { type, shape := .instruction { name } [] { opcode } }
  setOperands id operands
  return id

/-- An arithmetic operation on two values of one type. -/
def makeArith (operation : String) (lhs rhs : Slot) (name : String) : Act ValueId := do
  let left ← requireValue lhs
  let right ← requireValue rhs
  require (left.type.agrees right.type)
  makeInstruction (.arith operation) [lhs, rhs] left.type name

/-- A join of data flow, with nothing flowing in yet. -/
def makePhi (type : Ty) (name : String) : Act ValueId :=
  makeInstruction .phi [] type name

/-- A choice between two values of one type. -/
def makeSelect (condition ifTrue ifFalse : Slot) (name : String) : Act ValueId := do
  require ((← requireValue condition).type.agrees .bool)
  let yes ← requireValue ifTrue
  let no ← requireValue ifFalse
  require (yes.type.agrees no.type)
  makeInstruction .select [condition, ifTrue, ifFalse] yes.type name

/-- A copy of a vector with one element exchanged, the one at a constant index. -/
def makeInsertElement (vector element index : Slot) (name : String) : Act ValueId := do
  let type ← typeIn vector
  match type.vectorElement? with
  | none => throw .unmetRequirement
  | some elementType =>
    require ((← typeIn element).agrees elementType)
    match (← requireValue index).shape with
    | .constant _ | .undef => makeInstruction .insertElement [vector, element, index] type name
    | _ => throw .unmetRequirement

/-- One element of a vector. -/
def makeExtractElement (vector index : Slot) (name : String) : Act ValueId := do
  match (← typeIn vector).vectorElement? with
  | none => throw .unmetRequirement
  | some elementType => makeInstruction .extractElement [vector, index] elementType name

/-- Control goes on in a block. -/
def makeBranch (target : Slot) : Act ValueId := do
  require (← requireValue target).isBlock
  makeInstruction .branch [target] .void ""

/-- Control goes on in one of two different blocks. -/
def makeBranchIf (condition ifTrue ifFalse : Slot) : Act ValueId := do
  require ((← requireValue condition).type.agrees .bool)
  require (← requireValue ifTrue).isBlock
  require (← requireValue ifFalse).isBlock
  require (ifTrue != ifFalse)
  makeInstruction .branchIf [condition, ifTrue, ifFalse] .void ""

/-- Control leaves the function with a value. -/
def makeReturn (value : Slot) : Act ValueId := do
  let _ ← requireValue value
  makeInstruction .ret [value] .void ""

/-- A debug record for the value whose handle is wrapped. -/
def makeDebugValue (wrapper : Slot) (binding : Binding) (name : String) : Act ValueId := do
  match (← requireValue wrapper).wrapped? with
  | none => throw .unmetRequirement
  | some node =>
    require (← fetch node).handleOf?.isSome
    makeInstruction (.debugValue binding) [wrapper] .void name

/-- Data flowing into a join from a block. -/
def addIncoming (phi value block : Slot) : Act Unit := do
  let id ← instructionIn phi
  let join ← fetch id
  if join.opcode? != some .phi then throw .noSuchMember
  require ((← typeIn value).agrees join.type)
  pushOperand id value
  pushOperand id block

/-- Pairs up a list; an odd last item is left out. -/
def pairs {α : Type} : List α → List (α × α)
  | a :: b :: rest => (a, b) :: pairs rest
  | _ => []

/-- What flows into a join, and from where. -/
def Value.incoming (v : Value) : List (Slot × Slot) :=
  pairs v.operands

/-- The parts of an instruction that can be asked for by name. -/
inductive Part
  | lhs | rhs | condition | ifTrue | ifFalse | vector | element | index | target | value
  deriving DecidableEq

/-- The place among the operands at which an instruction has a part. -/
def Opcode.placeOf? : Opcode → Part → Option Nat
  | .arith _, .lhs => some 0
  | .arith _, .rhs => some 1
  | .select, .condition | .branchIf, .condition => some 0
  | .select, .ifTrue | .branchIf, .ifTrue => some 1
  | .select, .ifFalse | .branchIf, .ifFalse => some 2
  | .insertElement, .vector | .extractElement, .vector => some 0
  | .insertElement, .element => some 1
  | .insertElement, .index => some 2
  | .extractElement, .index => some 1
  | .branch, .target => some 0
  | .ret, .value => some 0
  | _, _ => none

/-- The blocks that the terminators among the users of a block stand in. -/
def Store.predecessors (s : Store) (block : ValueId) : List (Option ValueId) :=
  (s.usesOf block).filterMap fun user => do
    let i ← s.instruction? user
    if i.opcode.isTerminator then some i.block else none

end SsaDebugInfo
