import SsaDebugInfo.Store.Act

/-!
# Finding a location for an instruction

Joins and choices of data flow often have no location of their own. The instructions that use their
result do, and may use it through further joins and choices.

- `Store.resolveWithin`: the first instruction with a location among an instruction and those
  reached from it through uses, at most so many uses away.
- `Store.LeadsTo`: the paths on which such an instruction lies.
-/

namespace SsaDebugInfo

/-- Whether an instruction without a location is attributed to its users. -/
def Opcode.isSynthesized : Opcode → Bool
  | .phi | .select => true
  | _ => false

namespace Store

variable (s : Store)

/-- The first instruction with a location, searching depth first among the users of joins and
choices without one. -/
def resolveWithin : Nat → ValueId → Option ValueId
  | budget, id =>
    match s.instruction? id with
    | none => none
    | some i =>
      if i.loc.isSome then some id
      else
        match budget with
        | 0 => none
        | budget + 1 =>
          if i.opcode.isSynthesized then (s.usesOf id).findSome? (resolveWithin budget) else none

/-- `s.LeadsTo k x r`: from `x`, following `k` uses of joins and choices without a location, one
comes to the instruction `r`, which has a location. -/
inductive LeadsTo : Nat → ValueId → ValueId → Prop
  | here {x : ValueId} {i : Instruction} :
    s.instruction? x = some i → i.loc.isSome → LeadsTo 0 x x
  | through {k : Nat} {x y r : ValueId} {i : Instruction} :
    s.instruction? x = some i → i.loc = none → i.opcode.isSynthesized → y ∈ s.usesOf x →
      LeadsTo k y r → LeadsTo (k + 1) x r

end Store

/-- The instruction to attribute a diagnostic about an instruction to, at most `depth` uses away. -/
def resolve (depth : Nat) (slot : Slot) : Act (Option ValueId) := do
  let id ← instructionIn slot
  return (← get).resolveWithin depth id

end SsaDebugInfo
