import SsaDebugInfo.Ir.Build

/-!
# Handles and wrappers

Metadata refers to a value through the value's handle, and an instruction takes a metadata node as
an operand through the node's wrapper. A context keeps at most one handle for each value and one
wrapper for each node; a value's handle is in the context of the value, which is fixed when it is
first asked for.
-/

namespace SsaDebugInfo

/-! ## Contexts of values -/

/-- The context of a function: the one it was made with, else that of its module when first asked
for. -/
def contextOfFunction (id : FunctionId) : Act ContextId := do
  let f ← fetch id
  match f.context with
  | some context => return context
  | none =>
    let context ← match f.module with
      | none => pure globalContext
      | some m => pure (← fetch m).context
    update id fun f => { f with context := some context }
    return context

/-- The context of a value: the one it was made with, else that of its function or module when first
asked for. -/
def contextOfValue (id : ValueId) : Act ContextId := do
  let v ← fetch id
  match v.context with
  | some context => return context
  | none =>
    let context ← match v.function?, v.global?.bind (·.module) with
      | some f, _ => contextOfFunction f
      | none, some m => pure (← fetch m).context
      | none, none => pure globalContext
    update id fun v => { v with context := some context }
    return context

/-- The context of what is in a slot: values, functions and modules have one. -/
def contextOf : Slot → Act ContextId
  | some (.function id) => contextOfFunction id
  | some (.module id) => return (← fetch id).context
  | slot => do contextOfValue (← valueIn slot)

/-! ## Handles -/

namespace Context

/-- The handle of a value. -/
def handle? (c : Context) (value : ValueId) : Option NodeId :=
  c.handles.lookup value

/-- The wrapper of a node. -/
def wrapper? (c : Context) (node : NodeId) : Option ValueId :=
  c.wrappers.lookup node

end Context

/-- The handle of what is in a slot, if it has one. Functions and modules have a context but never a
handle. -/
def handleIfExists (slot : Slot) : Act (Option NodeId) := do
  let context ← fetch (← contextOf slot)
  return slot.value?.bind context.handle?

/-- The handle of a value, made if there is none. The handle of a constant keeps it alive; that of
another value does not. -/
def handleOf (slot : Slot) : Act NodeId := do
  match ← handleIfExists slot with
  | some handle => return handle
  | none =>
    let id ← valueIn slot
    let handle ← create .node
      (if (← fetch id).isConstant then .constantHandle id else .localHandle id)
    update (← contextOf slot) fun c => { c with handles := c.handles ++ [(id, handle)] }
    return handle

/-- The value that a handle stands for, unless it is gone. -/
def Store.handled? (s : Store) (handle : NodeId) : Option ValueId := do
  let value ← (← s.get? handle).handleOf?
  if (s.get? value).isSome then some value else none

/-! ## Wrappers -/

/-- The wrapper of a node in a context, if it has one. -/
def wrapperIfExists (context : ContextId) (node : NodeId) : Act (Option ValueId) := do
  return (← fetch context).wrapper? node

/-- The wrapper of a node in a context, made if there is none. -/
def wrapperOf (context : ContextId) (node : NodeId) : Act ValueId := do
  match ← wrapperIfExists context node with
  | some wrapper => return wrapper
  | none =>
    let wrapper ← create .value
      { type := .metadata, shape := .wrapper node, context := some context }
    update context fun c => { c with wrappers := c.wrappers ++ [(node, wrapper)] }
    return wrapper

/-! ## What a record tracks -/

/-- The value that an operand holds on to through a wrapper and a handle. -/
def Store.unwrap (s : Store) (operand : Slot) : Except Fault (Option ValueId) := do
  let (_, wrapper) ← found (s.valueIn? operand)
  let node ← found wrapper.wrapped?
  let _ ← found ((s.get? node).bind (·.handleOf?))
  return s.handled? node

/-- The value that a debug record tracks, unless it is gone. -/
def trackedBy (debugValue : ValueId) : Act (Option ValueId) := do
  let operand ← operandAt debugValue 0
  ask fun s => s.unwrap operand

/-- Whether a value is a debug record that tracks `value`. -/
def Store.tracks (s : Store) (debugValue value : ValueId) : Bool :=
  match s.get? debugValue with
  | none => false
  | some d =>
    d.isDebugValue &&
      match d.operands with
      | [] => false
      | operand :: _ =>
        match s.unwrap operand with
        | .ok tracked => tracked == some value
        | .error _ => false

end SsaDebugInfo
