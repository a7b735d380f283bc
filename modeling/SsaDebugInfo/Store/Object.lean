import SsaDebugInfo.Layout.Cache
import SsaDebugInfo.Store.Node
import SsaDebugInfo.Store.Value

/-!
# Objects

The objects besides values and metadata nodes: functions and the modules they are in, the contexts
that own handles, and what reports diagnostics. `Object` says what an object of each kind is.
-/

namespace SsaDebugInfo

/-- A function: its arguments and blocks, and the names in use in it. -/
structure Function where
  name : String
  result : Ty
  parameters : List Ty
  subprogram : Slot := none
  context : Option ContextId := none
  module : Option ModuleId := none
  /-- The names that its arguments, blocks and instructions have registered. -/
  names : List String := []
  /-- The number that the next generated name gets. -/
  nextName : Nat := 1
  arguments : List Slot := []
  blocks : List ValueId := []

/-- The type of a function. -/
def Function.type (f : Function) : Ty :=
  .function f.result f.parameters false

/-- The debug descriptors found in modules, in the order found. -/
structure Index where
  units : List Ref := []
  subprograms : List Ref := []
  globals : List Ref := []
  deriving DecidableEq

/-- What a module derives from its debug metadata. The index is made when it is first needed. -/
structure ModuleState where
  index : Option Index := none

/-- A module: functions, global variables, compile units, and the state derived from them. -/
structure Module where
  name : String
  context : ContextId
  layout : LayoutId
  functions : List FunctionId := []
  globals : List ValueId := []
  units : List Slot := []
  state : Option ModuleState := none

/-- A context: the handle of each value, and the wrapper of each metadata node. Neither table keeps
what it names alive. -/
structure Context where
  handles : List (ValueId × NodeId) := []
  wrappers : List (NodeId × ValueId) := []

/-- How bad what a diagnostic reports is. -/
inductive Level
  | note | warning | error | fatal
  deriving DecidableEq

/-- A diagnostic about the IR. -/
structure Diagnostic where
  level : Level
  reason : String
  arguments : List (String × Literal) := []
  function : Slot := none
  location : Slot := none
  notes : List Slot := []

/-- Where diagnostics go: to the journal, those that are bad enough becoming faults, or onto a
list. -/
inductive Engine
  | reporting (errorsAreFatal : Bool) (notes : List Slot)
  | collecting (received : List Slot)

/-- Makes diagnostics for an engine, looking for locations up to a number of uses away. -/
structure Emitter where
  engine : EngineId
  depth : Nat

/-- What an object of a kind is. -/
abbrev Object : Kind → Type
  | .value => Value
  | .node => Node
  | .function => Function
  | .module => Module
  | .context => Context
  | .layout => Layout
  | .engine => Engine
  | .emitter => Emitter
  | .diagnostic => Diagnostic

end SsaDebugInfo
