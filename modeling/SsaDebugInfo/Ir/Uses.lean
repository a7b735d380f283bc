import SsaDebugInfo.Store.Act

/-!
# Operands and uses

A value knows its users: whoever takes a value as an operand is added to its users, once however
often it takes it, and whoever gives up the last operand that is the value is removed.
-/

namespace SsaDebugInfo

/-- The user in a slot; other objects have no operands. -/
def userIn (slot : Slot) : Act ValueId := do
  let id ← valueIn slot
  if (← fetch id).isUser then pure id else throw .noSuchMember

/-- Adds a user to a value that it takes as an operand. -/
def addUse (user : ValueId) (operand : Slot) : Act Unit := do
  let id ← valueIn operand
  update id fun v => if user ∈ v.uses then v else { v with uses := v.uses ++ [user] }

/-- Removes a user from a value that it takes as an operand no longer. -/
def dropUse (user : ValueId) (operand : Slot) : Act Unit := do
  let id ← valueIn operand
  if user ∈ (← fetch id).uses then
    update id fun v => { v with uses := v.uses.erase user }
  else
    throw .notAmongUses

/-- Exchanges all operands of a user: it leaves the uses of the old ones, then enters those of the
new ones. The list is handed over to the user: it is taken to be a new one, which nobody else keeps
and changes. -/
def setOperands (user : ValueId) (operands : List Slot) : Act Unit := do
  (← fetch user).operands.eraseDups.forM (dropUse user)
  update user (·.mapOperands fun _ => operands)
  operands.eraseDups.forM (addUse user)

/-- The place that an index stands for in a list of the given length: a negative index counts from
the end. -/
def position? (length : Nat) (index : Int) : Option Nat :=
  let place := if index < 0 then index + length else index
  if 0 ≤ place ∧ place < length then some place.toNat else none

/-- Exchanges one operand of a user. The user stays among the uses of the old operand while another
of its operands is the same. -/
def setOperand (user : ValueId) (index : Int) (operand : Slot) : Act Unit := do
  let operands := (← fetch user).operands
  match position? operands.length index with
  | none => throw .noSuchPosition
  | some place =>
    let old := operands[place]?.join
    let operands := operands.set place operand
    update user (·.mapOperands fun _ => operands)
    if old ∉ operands then dropUse user old
    addUse user operand

/-- Takes a value as one more operand. -/
def pushOperand (user : ValueId) (operand : Slot) : Act Unit := do
  update user (·.mapOperands (· ++ [operand]))
  addUse user operand

/-- Gives up all operands. -/
def dropReferences (user : ValueId) : Act Unit :=
  setOperands user []

/-- The operand of a user at a place. -/
def operandAt (user : ValueId) (place : Nat) : Act Slot := do
  match (← fetch user).operands[place]? with
  | some operand => pure operand
  | none => throw .noSuchPosition

end SsaDebugInfo
