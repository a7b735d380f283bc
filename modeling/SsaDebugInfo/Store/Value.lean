import SsaDebugInfo.Literal
import SsaDebugInfo.Store.Ref
import SsaDebugInfo.Ty

/-!
# Values

A value has a type, the users that have it among their operands, and the context that owns its
handle once one has been asked for. What else it has depends on its shape: constants hold data,
arguments, blocks and users have a name within a function, users have operands, and instructions
stand in a block at a source location.

Each aspect that several shapes share (`site?`, `operands`, `instructions`, `instruction?`,
`global?`) has a map that changes it alone, with lemmas that say so.
-/

namespace SsaDebugInfo

/-- A name, and the function it is a name in. -/
structure Site where
  name : String
  function : Option FunctionId := none
  deriving DecidableEq

/-- What a debug record says about the value it tracks: the variable that lives there, and which
part of it. -/
structure Binding where
  var : Slot
  expression : Slot
  offset : Int
  deriving DecidableEq

/-- What an instruction does. -/
inductive Opcode
  /-- An instruction of no particular kind. -/
  | plain
  | arith (operation : String)
  | phi
  | select
  | insertElement
  | extractElement
  | branch
  | branchIf
  | ret
  /-- A debug record. -/
  | debugValue (binding : Binding)
  deriving DecidableEq

namespace Opcode

/-- The written form of an opcode. -/
def print : Opcode → String
  | plain => "???"
  | arith operation => operation
  | phi => "phi"
  | select => "select"
  | insertElement => "insertelement"
  | extractElement => "extractelement"
  | branch => "branch"
  | branchIf => "branchif"
  | ret => "return"
  | debugValue _ => "dbg.value"

/-- Whether the instruction ends a block. -/
def isTerminator : Opcode → Bool
  | branch | branchIf | ret => true
  | _ => false

/-- What a debug record says. -/
def binding? : Opcode → Option Binding
  | debugValue binding => some binding
  | _ => none

/-- Whether the instruction is a debug record. -/
def isDebugValue (opcode : Opcode) : Bool :=
  opcode.binding?.isSome

end Opcode

/-- What an instruction has besides its name and its operands. -/
structure Instruction where
  opcode : Opcode
  block : Option ValueId := none
  loc : Slot := none
  deriving DecidableEq

/-- A variable at module level. -/
structure Global where
  name : String
  initializer : Slot
  module : Option ModuleId := none
  deriving DecidableEq

/-- What distinguishes the kinds of values. -/
inductive Shape
  | constant (literal : Literal)
  | undef
  /-- A metadata node as an operand. -/
  | wrapper (node : NodeId)
  | global (global : Global)
  | argument (site : Site)
  | block (site : Site) (instructions : List Slot)
  /-- A user that is no instruction. -/
  | user (site : Site) (operands : List Slot)
  | instruction (site : Site) (operands : List Slot) (instruction : Instruction)

/-- A value of the IR. -/
structure Value where
  type : Ty
  shape : Shape
  uses : List ValueId := []
  context : Option ContextId := none

namespace Value

/-- The name of a value within its function. -/
def site? (v : Value) : Option Site :=
  match v.shape with
  | .argument site | .block site _ | .user site _ | .instruction site _ _ => some site
  | _ => none

/-- Changes the name of a value, or its function. -/
def mapSite (f : Site → Site) (v : Value) : Value :=
  match v.shape with
  | .argument site => { v with shape := .argument (f site) }
  | .block site instructions => { v with shape := .block (f site) instructions }
  | .user site operands => { v with shape := .user (f site) operands }
  | .instruction site operands i => { v with shape := .instruction (f site) operands i }
  | _ => v

/-- The operands of a user; other values have none. -/
def operands (v : Value) : List Slot :=
  match v.shape with
  | .user _ operands | .instruction _ operands _ => operands
  | _ => []

/-- Changes the operands of a user. -/
def mapOperands (f : List Slot → List Slot) (v : Value) : Value :=
  match v.shape with
  | .user site operands => { v with shape := .user site (f operands) }
  | .instruction site operands i => { v with shape := .instruction site (f operands) i }
  | _ => v

/-- The instructions of a block; other values have none. -/
def instructions (v : Value) : List Slot :=
  match v.shape with
  | .block _ instructions => instructions
  | _ => []

/-- Changes the instructions of a block. -/
def mapInstructions (f : List Slot → List Slot) (v : Value) : Value :=
  match v.shape with
  | .block site instructions => { v with shape := .block site (f instructions) }
  | _ => v

/-- What makes the value an instruction, if it is one. -/
def instruction? (v : Value) : Option Instruction :=
  match v.shape with
  | .instruction _ _ i => some i
  | _ => none

/-- Changes what makes the value an instruction. -/
def mapInstruction (f : Instruction → Instruction) (v : Value) : Value :=
  match v.shape with
  | .instruction site operands i => { v with shape := .instruction site operands (f i) }
  | _ => v

/-- What makes the value a global variable, if it is one. -/
def global? (v : Value) : Option Global :=
  match v.shape with
  | .global g => some g
  | _ => none

/-- Changes what makes the value a global variable. -/
def mapGlobal (f : Global → Global) (v : Value) : Value :=
  match v.shape with
  | .global g => { v with shape := .global (f g) }
  | _ => v

/-- The metadata node that a wrapper holds. -/
def wrapped? (v : Value) : Option NodeId :=
  match v.shape with
  | .wrapper node => some node
  | _ => none

/-- The opcode of an instruction. -/
def opcode? (v : Value) : Option Opcode :=
  v.instruction?.map (·.opcode)

/-- The function that a value belongs to. -/
def function? (v : Value) : Option FunctionId :=
  v.site?.bind (·.function)

/-- The block that an instruction stands in. -/
def block? (v : Value) : Option ValueId :=
  v.instruction?.bind (·.block)

/-- What a debug record says. -/
def binding? (v : Value) : Option Binding :=
  v.opcode?.bind Opcode.binding?

/-- The name of a value that has one, within its function or within its module. -/
def name? (v : Value) : Option String :=
  match v.shape with
  | .global g => some g.name
  | _ => v.site?.map (·.name)

/-- Whether the value is a constant: data, an undefined value, or the address of a global. -/
def isConstant (v : Value) : Bool :=
  match v.shape with
  | .constant _ | .undef | .global _ => true
  | _ => false

/-- Whether the value is a block. -/
def isBlock (v : Value) : Bool :=
  match v.shape with
  | .block .. => true
  | _ => false

/-- Whether the value has operands of its own. -/
def isUser (v : Value) : Bool :=
  match v.shape with
  | .user .. | .instruction .. => true
  | _ => false

/-- Whether the value is an instruction that inserts an element into a vector. -/
def isInsertElement (v : Value) : Bool :=
  v.opcode? == some .insertElement

/-- Whether the value is a debug record. -/
def isDebugValue (v : Value) : Bool :=
  v.binding?.isSome

/-- The places of a value that keep an object alive. -/
def slots (v : Value) : List Slot :=
  v.uses.map Slot.ofValue ++ v.context.toList.map (some ∘ Ref.context) ++
    match v.shape with
    | .constant _ | .undef => []
    | .wrapper node => [.ofNode node]
    | .global g => g.initializer :: g.module.toList.map (some ∘ Ref.module)
    | .argument site => site.function.toList.map (some ∘ Ref.function)
    | .block site instructions =>
      site.function.toList.map (some ∘ Ref.function) ++ instructions
    | .user site operands => site.function.toList.map (some ∘ Ref.function) ++ operands
    | .instruction site operands i =>
      site.function.toList.map (some ∘ Ref.function) ++ operands ++
        i.block.toList.map Slot.ofValue ++ [i.loc] ++
        match i.opcode with
        | .debugValue binding => [binding.var, binding.expression]
        | _ => []

/-! ## Each map changes its own aspect alone -/

section Aspects

variable (v : Value)

@[simp] theorem site?_mapSite (f : Site → Site) : (v.mapSite f).site? = v.site?.map f := by
  obtain ⟨_, shape, _, _⟩ := v; cases shape <;> rfl

@[simp] theorem operands_mapSite (f : Site → Site) : (v.mapSite f).operands = v.operands := by
  obtain ⟨_, shape, _, _⟩ := v; cases shape <;> rfl

@[simp] theorem instructions_mapSite (f : Site → Site) :
    (v.mapSite f).instructions = v.instructions := by
  obtain ⟨_, shape, _, _⟩ := v; cases shape <;> rfl

@[simp] theorem instruction?_mapSite (f : Site → Site) :
    (v.mapSite f).instruction? = v.instruction? := by
  obtain ⟨_, shape, _, _⟩ := v; cases shape <;> rfl

@[simp] theorem uses_mapSite (f : Site → Site) : (v.mapSite f).uses = v.uses := by
  obtain ⟨_, shape, _, _⟩ := v; cases shape <;> rfl

@[simp] theorem site?_mapOperands (f : List Slot → List Slot) :
    (v.mapOperands f).site? = v.site? := by
  obtain ⟨_, shape, _, _⟩ := v; cases shape <;> rfl

@[simp] theorem instructions_mapOperands (f : List Slot → List Slot) :
    (v.mapOperands f).instructions = v.instructions := by
  obtain ⟨_, shape, _, _⟩ := v; cases shape <;> rfl

@[simp] theorem instruction?_mapOperands (f : List Slot → List Slot) :
    (v.mapOperands f).instruction? = v.instruction? := by
  obtain ⟨_, shape, _, _⟩ := v; cases shape <;> rfl

@[simp] theorem uses_mapOperands (f : List Slot → List Slot) :
    (v.mapOperands f).uses = v.uses := by
  obtain ⟨_, shape, _, _⟩ := v; cases shape <;> rfl

@[simp] theorem site?_mapInstructions (f : List Slot → List Slot) :
    (v.mapInstructions f).site? = v.site? := by
  obtain ⟨_, shape, _, _⟩ := v; cases shape <;> rfl

@[simp] theorem operands_mapInstructions (f : List Slot → List Slot) :
    (v.mapInstructions f).operands = v.operands := by
  obtain ⟨_, shape, _, _⟩ := v; cases shape <;> rfl

@[simp] theorem instruction?_mapInstructions (f : List Slot → List Slot) :
    (v.mapInstructions f).instruction? = v.instruction? := by
  obtain ⟨_, shape, _, _⟩ := v; cases shape <;> rfl

@[simp] theorem uses_mapInstructions (f : List Slot → List Slot) :
    (v.mapInstructions f).uses = v.uses := by
  obtain ⟨_, shape, _, _⟩ := v; cases shape <;> rfl

@[simp] theorem site?_mapInstruction (f : Instruction → Instruction) :
    (v.mapInstruction f).site? = v.site? := by
  obtain ⟨_, shape, _, _⟩ := v; cases shape <;> rfl

@[simp] theorem operands_mapInstruction (f : Instruction → Instruction) :
    (v.mapInstruction f).operands = v.operands := by
  obtain ⟨_, shape, _, _⟩ := v; cases shape <;> rfl

@[simp] theorem instructions_mapInstruction (f : Instruction → Instruction) :
    (v.mapInstruction f).instructions = v.instructions := by
  obtain ⟨_, shape, _, _⟩ := v; cases shape <;> rfl

@[simp] theorem instruction?_mapInstruction (f : Instruction → Instruction) :
    (v.mapInstruction f).instruction? = v.instruction?.map f := by
  obtain ⟨_, shape, _, _⟩ := v; cases shape <;> rfl

@[simp] theorem uses_mapInstruction (f : Instruction → Instruction) :
    (v.mapInstruction f).uses = v.uses := by
  obtain ⟨_, shape, _, _⟩ := v; cases shape <;> rfl

end Aspects

end Value

end SsaDebugInfo
