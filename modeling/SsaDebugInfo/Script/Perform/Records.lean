import SsaDebugInfo.Records.Scatter
import SsaDebugInfo.Resolver
import SsaDebugInfo.Script.Outcome

/-!
# Operations on handles, debug records and locations

A wrapper may be asked for by a node, or by a value whose handle is the node.
-/

namespace SsaDebugInfo.Script

/-- The context and node that a wrapper is asked for with: the context is that of the value unless
it is given, and the node is the handle of the value unless it is given. -/
def wrapperKey (labels : Labels) (value node context : Given) : Act (ContextId × NodeId) := do
  let value ← labels.look value
  let node ← labels.look node
  let context ← labels.look context
  let context ← if context.isSome then contextIn context else contextOf value
  let node ← if node.isSome then nodeIn node else handleOf value
  return (context, node)

/-- How many entries of a context's tables still name something: handles whose value is there, and
wrappers. -/
def countTables (s : Store) (c : Context) : Nat × Nat :=
  ((c.handles.filter fun entry => (s.handled? entry.2).isSome).length, c.wrappers.length)

/-- Performs an operation on handles, records or locations. -/
def performRecords (labels : Labels) : RecordOperation → Act Outcome
  | .handle value => do
    let id ← labels.look value >>= handleOf
    let kind := (← fetch id).kindName
    let text ← ask fun s => s.printNode id
    return { made := some (.ofNode id), answer := fun _ => .ok (.handle kind text true) }
  | .handleIfExists value => do
    match ← labels.look value >>= handleIfExists with
    | none => return .silent
    | some id =>
      let kind := (← fetch id).kindName
      return .plain (.existingHandle kind (← ask fun s => s.printNode id))
  | .wrapper value node context => do
    let (context, node) ← wrapperKey labels value node context
    return .creation (.value (← wrapperOf context node))
  | .wrapperIfExists value node context => do
    let (context, node) ← wrapperKey labels value node context
    return .object ((← wrapperIfExists context node).map Ref.value)
  | .tables context => do
    let c ← fetch (← labels.look context >>= contextIn)
    let (handles, wrappers) := countTables (← get) c
    return .plain (.tables handles wrappers)
  | .resolve instruction depth => do
    let slot ← labels.look instruction
    require (0 ≤ depth)
    return .object ((← resolve depth.toNat slot).map Ref.value)
  | .find value => do
    return .object ((← labels.look value >>= findRecord).map Ref.value)
  | .migrate old new => do
    let old ← labels.look old
    let new ← labels.look new
    migrate old new
    return .silent
  | .chain value => do
    let slot ← labels.look value
    return .objects ((← ask fun s => s.chain slot).map Slot.ofValue)
  | .scatter value => do
    labels.look value >>= scatter
    return .silent

end SsaDebugInfo.Script
