import SsaDebugInfo.Diagnostics.Engine
import SsaDebugInfo.Modules
import SsaDebugInfo.Resolver

/-!
# Emitting diagnostics

An emitter makes a diagnostic about an instruction, a function, a global variable or the program as
a whole, gives it the most precise location that debug metadata offers, and hands it to its engine.
-/

namespace SsaDebugInfo

/-- Makes an emitter, with a reporting engine of its own unless one is given. The depth to which it
searches for locations must not be negative. -/
def makeEmitter (engine : Option EngineId) (depth : Int) : Act EmitterId := do
  require (0 ≤ depth)
  let engine ← match engine with
    | some engine => pure engine
    | none => create .engine (.reporting false [])
  create .emitter { engine, depth := depth.toNat }

/-- Makes a diagnostic and hands it to the engine of an emitter. -/
def emit (emitter : Emitter) (level : Option String) (reason : String)
    (function location : Slot) : Act DiagnosticId := do
  let id ← makeDiagnostic level fun level => { level, reason, function, location }
  process emitter.engine (some (.diagnostic id))
  return id

/-- About an instruction: a join or choice without a location is attributed to the instruction
found among its users, if any. -/
def emitOnInstruction (emitter : Emitter) (target : Slot) (reason : String)
    (level : Option String) : Act DiagnosticId := do
  let id ← instructionIn target
  let s ← get
  let located :=
    match s.instruction? id with
    | some i =>
      if i.loc.isNone && i.opcode.isSynthesized then (s.resolveWithin emitter.depth id).getD id
      else id
    | none => id
  emit emitter level reason ((s.functionOf? located).map Ref.function)
    ((s.instruction? located).bind (·.loc))

/-- About a function: it is located at the line of its subprogram. -/
def emitOnFunction (emitter : Emitter) (target : Slot) (reason : String)
    (level : Option String) : Act DiagnosticId := do
  let f ← fetch (← functionIn target)
  let location ← match f.subprogram with
    | none => pure none
    | subprogram =>
      match (← get).nodeIn? subprogram with
      | some (.subprogram _ _ line _ _) | some (.location line _ _ _)
      | some (.localVariable _ _ _ line _) | some (.globalVariable _ _ _ line _) =>
        pure (Slot.ofNode (← create .node (.location line 0 subprogram none)))
      | _ => throw .noSuchMember
  emit emitter level reason target location

/-- The location of a global variable: its first descriptor in the index of its module, the one that
the module's state remembers if there is a state. -/
def locateGlobal (target : Slot) : Act Slot := do
  let module ← match target with
    | none => pure none
    | some (.function id) => pure (← fetch id).module
    | _ => pure (← globalIn target).2.module
  match module with
  | none => return none
  | some id =>
    let m ← fetch id
    if m.hasDebugInfo then
      let index ← if m.state.isSome then cachedIndex id else freshIndex id 1
      ask fun s => index.descriptorOf s target
    else return none

/-- About a global variable, or about none in particular. -/
def emitOnGlobal (emitter : Emitter) (target : Slot) (reason : String)
    (level : Option String) : Act DiagnosticId := do
  let location ← locateGlobal target
  emit emitter level reason none location

/-- About the program as a whole. -/
def emitOnContext (emitter : Emitter) (reason : String) (level : Option String) :
    Act DiagnosticId :=
  emit emitter level reason none none

/-- What is wrong with a resource that may stand for several global ones. -/
def resourceMappingReason : String :=
  "local resource not guaranteed to map to unique global resource."

end SsaDebugInfo
