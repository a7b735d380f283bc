import SsaDebugInfo.Store.Ref

/-!
# Metadata nodes

The nodes that describe the source program: files, compile units, subprograms, locations, variables
and expressions, and the handles through which metadata refers to IR values.
-/

namespace SsaDebugInfo

/-- A metadata node. -/
inductive Node
  /-- A node that says nothing. -/
  | plain
  /-- A scope that is nothing but a scope. -/
  | scope
  | file (filename directory : String)
  | unit (file : Slot) (producer : String) (globals subprograms : List Slot)
  | subprogram (name : String) (file : Slot) (line : Int) (scope : Slot) (linkage : Option String)
  | location (line column : Int) (scope inlinedAt : Slot)
  | localVariable (name : String) (scope file : Slot) (line argument : Int)
  /-- The descriptor of a global variable of the source, and its storage in the IR. -/
  | globalVariable (name : String) (scope file : Slot) (line : Int) (storage : Slot)
  | expression (elements : List Int)
  /-- The handle of a constant, which keeps it alive. -/
  | constantHandle (value : ValueId)
  /-- The handle of a value of a function, which may outlive the value. -/
  | localHandle (value : ValueId)

namespace Node

/-- The name of a node's kind in its written form. -/
def kindName : Node → String
  | plain => "Metadata"
  | scope => "DIScope"
  | file .. => "DIFile"
  | unit .. => "DICompileUnit"
  | subprogram .. => "DISubprogram"
  | location .. => "DILocation"
  | localVariable .. => "DILocalVariable"
  | globalVariable .. => "DIGlobalVariable"
  | expression .. => "DIExpression"
  | constantHandle .. => "ConstantAsMetadata"
  | localHandle .. => "LocalAsMetadata"

/-- The value that a handle was made for. -/
def handleOf? : Node → Option ValueId
  | constantHandle value | localHandle value => some value
  | _ => none

/-- The name that a descriptor gives to what it describes. -/
def name? : Node → Option String
  | subprogram name .. | localVariable name .. | globalVariable name .. => some name
  | _ => none

/-- The numbers of an expression. -/
def elements? : Node → Option (List Int)
  | expression elements => some elements
  | _ => none

/-- The places of a node that keep an object alive. A handle of a value of a function does not keep
the value alive. -/
def slots : Node → List Slot
  | unit source _ globals subprograms => source :: (globals ++ subprograms)
  | subprogram _ source _ parent _ => [source, parent]
  | location _ _ parent inlinedAt => [parent, inlinedAt]
  | localVariable _ parent source _ _ => [parent, source]
  | globalVariable _ parent source _ storage => [parent, source, storage]
  | constantHandle value => [.ofValue value]
  | plain | scope | file .. | expression _ | localHandle _ => []

end Node

end SsaDebugInfo
