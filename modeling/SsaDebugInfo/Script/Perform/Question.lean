import SsaDebugInfo.Script.Perform.Change

/-!
# Asking about values and functions

Questions leave the store as it is, except that asking for a context fixes it.
-/

namespace SsaDebugInfo.Script

/-- The part of an object that is asked for by name. -/
def readPart (slot : Slot) (part : Option Part) : Act Slot := do
  match slot, part with
  | some (.value id), some part =>
    let v ← fetch id
    match v.shape, part with
    | .constant _, .value | .undef, .value | .block .., .index => throw .notCallable
    | .instruction _ _ i, part =>
      if i.opcode.isDebugValue && part = .value then
        return (← trackedBy id).map Ref.value
      else
        match i.opcode.placeOf? part with
        | some place => operandAt id place
        | none => throw .noSuchMember
    | _, _ => throw .noSuchMember
  | some (.node id), some .value =>
    if (← fetch id).handleOf?.isSome then throw .notCallable else throw .noSuchMember
  | _, _ => throw .noSuchMember

/-- Answers a question. -/
def performQuestion (labels : Labels) : Question → Act Outcome
  | .instructionAt block index => do
    let slot ← labels.look block
    if let some (.function _) := slot then throw .notCallable
    let id ← blockIn slot
    let instructions := (← fetch id).instructions
    match position? instructions.length index with
    | none => throw .noSuchPosition
    | some place =>
      let slot := instructions[place]?.join
      return { Outcome.object slot with made := some slot }
  | .next instruction => do
    return .object (← labels.look instruction >>= instructionIn >>= nextInstruction)
  | .indexOf block instruction => do
    let block ← labels.look block
    let instruction ← labels.look instruction
    let id ← blockOrClash block fun opcode =>
      opcode = .insertElement || opcode = .extractElement
    return .plain (.number (← indexIn id instruction))
  | .instructions container => do
    match ← labels.look container with
    | some (.function id) => return .objects (← instructionsOfFunction id)
    | slot => return .objects (← fetch (← blockIn slot)).instructions
  | .predecessors block => do
    let id ← labels.look block >>= blockIn
    let blocks := (← get).predecessors id
    return { answer := fun view => do
      let names ← blocks.mapM fun block => view.shown (block.map Ref.value)
      return .texts (Text.sorted (names.map (·.getD "None"))) }
  | .incoming phi => do
    let id ← labels.look phi >>= instructionIn
    let v ← fetch id
    if v.opcode? != some .phi then throw .noSuchMember
    return { answer := fun view => do
      return .pairs (← v.incoming.mapM fun (value, block) => do
        return (← view.shown value, ← view.shown block)) }
  | .part object part => do return .object (← readPart (← labels.look object) part)
  | .info object => do
    let slot ← labels.look object
    return { answer := fun view => do return .info (← view.info (← found slot)) }
  | .names function => do
    let f ← fetch (← labels.look function >>= functionIn)
    return .plain (.names (Text.sorted f.names) f.nextName)
  | .opcode instruction => do
    let v ← fetch (← labels.look instruction >>= instructionIn)
    return .plain (.text ((v.opcode?.map Opcode.print).getD ""))
  | .isConstant value => do
    let v ← fetch (← labels.look value >>= valueIn)
    return .plain (.flag v.isConstant)
  | .contextOf object => do
    return .object (some (.context (← labels.look object >>= contextOf)))
  | .operandText value => do
    let slot ← labels.look value
    return .plain (.text (← ask fun s => s.slotText slot))
  | .dump object locs => do
    let slot ← labels.look object
    return { answer := fun view => .text <$> view.dump locs slot }
  | .escapeName name => do return .plain (.text (Text.Identifier.print name))

end SsaDebugInfo.Script
