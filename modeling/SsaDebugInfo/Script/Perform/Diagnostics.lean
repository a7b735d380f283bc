import SsaDebugInfo.Diagnostics.Emitter
import SsaDebugInfo.Script.Outcome

/-!
# Operations on diagnostics

Making diagnostics, emitting them about parts of the program, and handing them to engines.
-/

namespace SsaDebugInfo.Script

/-- Emits a diagnostic about one of the known subjects. Requests named for a level exist for
warnings and errors, and for notes about the program as a whole; the one about a resource is an
error about an instruction. -/
def emitAbout (emitter : Emitter) (subject : Option Subject) (target : Slot) (reason : String)
    (choice : LevelChoice) : Act DiagnosticId := do
  let subject ← MonadExcept.ofExcept (found subject)
  let level ← match subject, choice with
    | .resource, _ => pure (some "error")
    | _, .argument level => pure level
    | _, .named "warning" => pure (some "warning")
    | _, .named "error" => pure (some "error")
    | .program, .named "note" => pure (some "note")
    | _, .named _ => throw .noSuchMember
  match subject with
  | .instruction => emitOnInstruction emitter target reason level
  | .function => emitOnFunction emitter target reason level
  | .global => emitOnGlobal emitter target reason level
  | .program => emitOnContext emitter reason level
  | .resource => emitOnInstruction emitter target resourceMappingReason level

/-- Performs an operation on diagnostics. -/
def performDiagnostics (labels : Labels) : DiagnosticOperation → Act Outcome
  | .engine collecting errorsAreFatal => do
    let id ← create .engine (if collecting then .collecting [] else .reporting errorsAreFatal [])
    return .quiet (.engine id)
  | .emitter engine depth => do
    let engine ← labels.look engine >>= optionally engineIn
    let id ← makeEmitter engine depth
    let e ← fetch id
    let kind := (← fetch e.engine).kindName
    return { made := some (some (.emitter id)), answer := fun _ => .ok (.emitter kind e.depth) }
  | .emit emitter subject target reason level => do
    let emitter ← labels.look emitter
    let target ← labels.look target
    let e ← fetch (← emitterIn emitter)
    return .diagnostic (← emitAbout e subject target reason level)
  | .diagnostic level reason arguments function location notes => do
    let function ← labels.look function
    let location ← labels.look location
    let notes ← labels.lookAll notes
    let id ← makeDiagnostic level fun level =>
      { level, reason, arguments, function, location, notes }
    return .diagnostic id
  | .report diagnostic => do
    let id ← labels.look diagnostic >>= diagnosticIn
    return { answer := fun view => .report <$> view.report id }
  | .process engine diagnostic => do
    let engine ← labels.look engine
    let diagnostic ← labels.look diagnostic
    process (← engineIn engine) diagnostic
    return .silent
  | .received engine => do
    return .plain (.received (← labels.look engine >>= engineIn >>= receivedLines))

end SsaDebugInfo.Script
