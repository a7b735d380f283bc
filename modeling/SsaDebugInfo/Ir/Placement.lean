import SsaDebugInfo.Ir.Names
import SsaDebugInfo.Ir.Uses

/-!
# Placing instructions, blocks and arguments

An instruction stands in a block and a block in a function: the list of the one and the link of the
other are set together, and the function of what is placed follows. Placing does not take an
instruction out of the block that it was in. The link is set, and the name registered, before a
place in the list is looked for.
-/

namespace SsaDebugInfo

/-- Links an instruction to a block, or to none; its function becomes that of the block. -/
def setBlock (insn : ValueId) (block : Option ValueId) : Act Unit := do
  update insn (·.mapInstruction fun i => { i with block })
  match block with
  | none => setFunction insn none
  | some block => setFunction insn (← fetch block).function?

/-- Takes an object of a block's list out of the block: an instruction loses its links and its name
is released; another named value just forgets its function. -/
def detach (slot : Slot) : Act Unit := do
  let id ← valueIn slot
  let v ← fetch id
  if v.instruction?.isSome then setBlock id none
  else if v.site?.isSome then update id (·.mapSite fun site => { site with function := none })
  else throw .noSuchMember

/-- Puts an instruction at the end of a block. -/
def appendTo (block insn : ValueId) : Act Unit := do
  setBlock insn (some block)
  update block (·.mapInstructions (· ++ [.ofValue insn]))

/-- The place of an object in a block. -/
def indexIn (block : ValueId) (slot : Slot) : Act Nat := do
  match (← fetch block).instructions.idxOf? slot with
  | some place => pure place
  | none => throw .notInList

/-- Puts an instruction in front of another one of a block. -/
def insertBefore (block insn : ValueId) (before : Slot) : Act Unit := do
  setBlock insn (some block)
  let place ← indexIn block before
  update block (·.mapInstructions (·.insertIdx place (.ofValue insn)))

/-- Puts an instruction right after another one of a block. -/
def insertAfter (block insn : ValueId) (after : Slot) : Act Unit := do
  setBlock insn (some block)
  let place ← indexIn block after
  update block (·.mapInstructions (·.insertIdx (place + 1) (.ofValue insn)))

/-- Puts a detached instruction right after another one, which must be in a block. -/
def placeAfter (insn : ValueId) (after : Slot) : Act Unit := do
  require ((← get).blockOf? insn).isNone
  let target ← instructionIn after
  match (← get).blockOf? target with
  | none => throw .unmetRequirement
  | some block => insertAfter block insn after

/-- Takes an object out of a block, in whose list it must be. -/
def removeFrom (block : ValueId) (slot : Slot) : Act Unit := do
  require ((← fetch block).instructions.contains slot)
  detach slot
  update block (·.mapInstructions (·.erase slot))

/-- Takes an instruction out of the block that it is in, if any. -/
def removeFromParent (insn : ValueId) : Act Unit := do
  if let some block := (← get).blockOf? insn then removeFrom block (.ofValue insn)

/-- Takes an instruction out of its block and drops its operands. Nothing may use it afterwards. -/
def erase (insn : ValueId) : Act Unit := do
  removeFromParent insn
  dropReferences insn
  require ((← get).usesOf insn).isEmpty

/-- Exchanges the instructions of a block: the old ones are detached, then the new ones are linked
to the block in turn. The list is handed over to the block: it is taken to be a new one, which
nobody else keeps and changes. -/
def setInstructions (block : ValueId) (insns : List Slot) : Act Unit := do
  (← fetch block).instructions.forM detach
  update block (·.mapInstructions fun _ => insns)
  insns.forM fun slot => do setBlock (← instructionIn slot) (some block)

/-- The instruction after this one in its block. -/
def nextInstruction (insn : ValueId) : Act Slot := do
  match (← get).blockOf? insn with
  | none => pure none
  | some block =>
    let place ← indexIn block (.ofValue insn)
    return (← fetch block).instructions[place + 1]?.join

/-- Exchanges the arguments of a function: the old ones leave it, then the new ones enter it in
turn. As with the instructions of a block, the list is taken to be a new one. -/
def setArguments (function : FunctionId) (arguments : List Slot) : Act Unit := do
  (← fetch function).arguments.forM fun slot => do setFunction (← valueIn slot) none
  update function fun f => { f with arguments }
  arguments.forM fun slot => do setFunction (← valueIn slot) (some function)

/-- Puts a block at the end of a function. -/
def addBlock (function : FunctionId) (block : ValueId) : Act Unit := do
  setFunction block (some function)
  update function fun f => { f with blocks := f.blocks ++ [block] }

/-- The instructions of a function, block by block. -/
def instructionsOfFunction (function : FunctionId) : Act (List Slot) := do
  let blocks := (← fetch function).blocks
  let lists ← blocks.mapM fun block => do
    return (← fetch (← blockIn (.ofValue block))).instructions
  return lists.flatten

end SsaDebugInfo
