import SsaDebugInfo.Script.Outcome

/-!
# Changing values and functions

Setting the name, the location or the binding of an object changes nothing else, whatever the object
is; the other changes keep lists and links together.
-/

namespace SsaDebugInfo.Script

/-- Gives an object another name, without telling the function that it is in. -/
def rename (slot : Slot) (name : String) : Act Unit := do
  match slot with
  | none => throw .noSuchMember
  | some (.value id) =>
    update id (·.mapSite fun site => { site with name })
    update id (·.mapGlobal fun g => { g with name })
  | some (.function id) => update id fun f => { f with name }
  | some (.module id) => update id fun m => { m with name }
  | some (.node id) =>
    update id fun
      | .subprogram _ source line parent linkage => .subprogram name source line parent linkage
      | .localVariable _ parent source line argument =>
        .localVariable name parent source line argument
      | .globalVariable _ parent source line storage =>
        .globalVariable name parent source line storage
      | n => n
  | _ => pure ()

/-- Changes what makes an object an instruction. Another object takes the change without effect. -/
def changeInstruction (slot : Slot) (f : Instruction → Instruction) : Act Unit := do
  match slot with
  | none => throw .noSuchMember
  | some (.value id) => update id (·.mapInstruction f)
  | _ => pure ()

/-- Changes what a debug record says. -/
def changeBinding (slot : Slot) (f : Binding → Binding) : Act Unit :=
  changeInstruction slot fun i =>
    match i.opcode with
    | .debugValue binding => { i with opcode := .debugValue (f binding) }
    | _ => i

/-- The members of a block's interface that an object other than a block has too, with other
arguments. -/
def blockOrClash (slot : Slot) (clashes : Opcode → Bool) : Act ValueId := do
  match (← get).instructionIn? slot with
  | some (_, i) => if clashes i.opcode then throw .notCallable else throw .noSuchMember
  | none => blockIn slot

/-- Performs a change. -/
def performChange (labels : Labels) : Change → Act Outcome
  | .setArguments function arguments => do
    let id ← labels.look function >>= functionIn
    setArguments id (← labels.lookAll arguments)
    return .silent
  | .addBlock function block => do
    let function ← labels.look function
    let block ← labels.look block
    let id ← functionIn function
    addBlock id (← valueIn block)
    return .silent
  | .addIncoming phi value block => do
    let phi ← labels.look phi
    let value ← labels.look value
    let block ← labels.look block
    addIncoming phi value block
    return .silent
  | .setLoc instruction loc => do
    let slot ← labels.look instruction
    let loc ← labels.look loc
    changeInstruction slot fun i => { i with loc }
    return .silent
  | .setVariable record var => do
    let slot ← labels.look record
    let var ← labels.look var
    changeBinding slot fun binding => { binding with var }
    return .silent
  | .setExpression record expression => do
    let slot ← labels.look record
    let expression ← labels.look expression
    changeBinding slot fun binding => { binding with expression }
    return .silent
  | .setName object name => do
    rename (← labels.look object) name
    return .silent
  | .setOperand user index value => do
    let user ← labels.look user
    let value ← labels.look value
    setOperand (← userIn user) index value
    return .silent
  | .setOperands user values => do
    let user ← labels.look user
    let values ← labels.lookAll values
    setOperands (← userIn user) values
    return .silent
  | .dropReferences user => do
    labels.look user >>= userIn >>= dropReferences
    return .silent
  | .append block instruction => do
    let block ← labels.look block
    let instruction ← labels.look instruction
    let id ← blockIn block
    appendTo id (← requireInstruction instruction)
    return .object instruction
  | .insert block instruction before => do
    let block ← labels.look block
    let instruction ← labels.look instruction
    let before ← labels.look before
    let id ← blockIn block
    insertBefore id (← requireInstruction instruction) before
    return .object instruction
  | .blockInsertAfter block instruction after => do
    let block ← labels.look block
    let instruction ← labels.look instruction
    let after ← labels.look after
    let id ← blockOrClash block fun _ => true
    insertAfter id (← requireInstruction instruction) after
    return .object instruction
  | .insertAfter instruction after => do
    let instruction ← labels.look instruction
    let after ← labels.look after
    if ((← get).blockIn? instruction).isSome then throw .notCallable
    placeAfter (← instructionIn instruction) after
    return .silent
  | .remove block instruction => do
    let block ← labels.look block
    let instruction ← labels.look instruction
    removeFrom (← blockIn block) instruction
    return .object instruction
  | .removeFromParent instruction => do
    labels.look instruction >>= instructionIn >>= removeFromParent
    return .silent
  | .erase instruction => do
    labels.look instruction >>= instructionIn >>= erase
    return .silent
  | .setInstructions block instructions => do
    let block ← labels.look block
    let instructions ← labels.lookAll instructions
    setInstructions (← blockIn block) instructions
    return .silent

end SsaDebugInfo.Script
