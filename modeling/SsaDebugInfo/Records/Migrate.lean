import SsaDebugInfo.Handles
import SsaDebugInfo.Ir.Print

/-!
# Finding, making and migrating debug records

The record of a value is found through the value's handle and the handle's wrapper, among the users
of the wrapper. Making a record makes the handle and the wrapper that it needs.

When one value takes the place of another, the record of the old value follows: it tracks the new
value from then on and stands right after it, if the new value is an instruction in a block.
-/

namespace SsaDebugInfo

/-! ## Finding and making -/

/-- A debug record among the users of a wrapper: the first one in the order in which the users are
listed, though any of them would do. -/
def Store.recordOfWrapper? (s : Store) (wrapper : ValueId) : Option ValueId :=
  (s.usesOf wrapper).find? fun user => ((s.get? user).map (·.isDebugValue)).getD false

/-- A debug record that tracks what is in a slot, if there is one. -/
def findRecord (slot : Slot) : Act (Option ValueId) := do
  match ← handleIfExists slot with
  | none => return none
  | some handle =>
    match ← wrapperIfExists (← contextOf slot) handle with
    | none => return none
    | some wrapper => return (← get).recordOfWrapper? wrapper

/-- Makes a detached debug record for a value. -/
def makeRecord (value : Slot) (binding : Binding) (loc : Slot) : Act ValueId := do
  let handle ← handleOf value
  let wrapper ← wrapperOf (← contextOf value) handle
  let id ← makeDebugValue (.ofValue wrapper) binding ""
  update id (·.mapInstruction fun i => { i with loc })
  return id

/-- Makes a debug record for a value and places it before or after an instruction; exactly one of
the two must be given. The record exists before its placement can fail. -/
def bindValue (value : Slot) (binding : Binding) (loc before after : Slot) : Act ValueId := do
  require (before.isNone != after.isNone)
  let id ← makeRecord value binding loc
  if before.isSome then
    let target ← instructionIn before
    match (← get).blockOf? target with
    | none => throw .noSuchMember
    | some block => insertBefore block id before
  else
    placeAfter id after
  return id

/-! ## Migrating -/

/-- The name of the variable that a record describes. -/
def Store.describedName (s : Store) (debugValue : ValueId) : Except Fault String := do
  let binding ← found ((s.get? debugValue).bind (·.binding?))
  found (binding.var.bind s.nameOf?)

/-- What the journal says about a migration. -/
def Store.migrationText (s : Store) (debugValue : ValueId) (old new : Slot) :
    Except Fault String := do
  return "migrating " ++ (← s.describedName debugValue) ++ " from " ++ (← s.slotText old) ++
    " to " ++ (← s.slotText new)

/-- Moves a record right after the instruction that it tracks, unless it stands there already. -/
def relocate (debugValue : ValueId) (new : Slot) : Act Unit := do
  match (← get).instructionIn? new with
  | none => pure ()
  | some (target, i) =>
    if i.block.isSome then
      if (← nextInstruction target) ≠ .ofValue debugValue then
        removeFromParent debugValue
        placeAfter debugValue new

/-- Rebinds the record of one value, if it has one, to another value. -/
def migrate (old new : Slot) : Act Unit := do
  match ← findRecord old with
  | none => pure ()
  | some debugValue =>
    let text ← ask fun s => s.migrationText debugValue old new
    record ⟨.records, .debug, text⟩
    let handle ← handleOf new
    let wrapper ← wrapperOf (← contextOf new) handle
    setOperand debugValue 0 (.ofValue wrapper)
    relocate debugValue new

end SsaDebugInfo
