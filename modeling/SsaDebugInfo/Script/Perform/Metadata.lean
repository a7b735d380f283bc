import SsaDebugInfo.Script.Outcome

/-!
# Operations on metadata

Metadata nodes hold whatever they are given; only asking a node for something that its kind does not
have is a fault.
-/

namespace SsaDebugInfo.Script

/-- Performs an operation on metadata. -/
def performMetadata (labels : Labels) : MetadataOperation → Act Outcome
  | .context => do return .creation (.context (← create .context {}))
  | .file filename directory => do
    return .creation (.node (← create .node (.file filename directory)))
  | .node isScope => do
    return .creation (.node (← create .node (if isScope then .scope else .plain)))
  | .unit source producer globals subprograms => do
    let source ← labels.look source
    let globals ← labels.lookAll globals
    let subprograms ← labels.lookAll subprograms
    return .creation (.node (← create .node (.unit source producer globals subprograms)))
  | .extendUnit unit globals subprograms => do
    let id ← labels.look unit >>= nodeIn
    let globals ← labels.lookAll globals
    let subprograms ← labels.lookAll subprograms
    match ← fetch id with
    | .unit .. =>
      update id fun
        | .unit source producer gs sps =>
          .unit source producer (gs ++ globals) (sps ++ subprograms)
        | n => n
      return .silent
    | _ => throw .noSuchMember
  | .subprogram name source line parent linkage => do
    let source ← labels.look source
    let parent ← labels.look parent
    return .creation (.node (← create .node (.subprogram name source line parent linkage)))
  | .location line column parent inlinedAt => do
    let parent ← labels.look parent
    let inlinedAt ← labels.look inlinedAt
    return .creation (.node (← create .node (.location line column parent inlinedAt)))
  | .localVariable name parent source line argument => do
    let parent ← labels.look parent
    let source ← labels.look source
    return .creation (.node (← create .node (.localVariable name parent source line argument)))
  | .globalDescriptor name parent source line storage => do
    let parent ← labels.look parent
    let source ← labels.look source
    let storage ← labels.look storage
    return .creation (.node (← create .node (.globalVariable name parent source line storage)))
  | .expression elements => do return .creation (.node (← create .node (.expression elements)))
  | .describeExpression expression => do
    let slot ← labels.look expression
    let elements ← ask fun s => found ((s.nodeIn? slot).bind (·.elements?))
    let text ← MonadExcept.ofExcept (Expression.write elements)
    return .plain (.expression text (Expression.bitPiece? elements))
  | .show object => do
    let slot ← labels.look object
    return { answer := fun view => .text <$> view.showAmongOthers slot }
  | .filename object => do
    let slot ← labels.look object
    return .plain (.object (← ask fun s => s.filenameOf slot))

end SsaDebugInfo.Script
