import SsaDebugInfo.Diagnostics.Render

/-!
# Engines

An engine takes in diagnostics. A collecting engine puts them on a list. A reporting engine attaches
the notes that it currently holds, writes the diagnostic into the journal, and turns one that is
fatal, or an error while errors are fatal, into a fault.
-/

namespace SsaDebugInfo

namespace Engine

/-- The kind of an engine in words. -/
def kindName : Engine → String
  | reporting .. => "Engine"
  | collecting _ => "CollectingEngine"

/-- The notes that the engine attaches. -/
def notes : Engine → List Slot
  | reporting _ notes => notes
  | collecting _ => []

/-- Changes the notes that the engine attaches. -/
def mapNotes (f : List Slot → List Slot) : Engine → Engine
  | reporting errorsAreFatal notes => reporting errorsAreFatal (f notes)
  | collecting received => collecting received

/-- The places of an engine that keep an object alive. -/
def slots : Engine → List Slot
  | reporting _ notes => notes
  | collecting received => received

end Engine

/-- The notes left when `count` of them have been given back; giving back none clears them all. -/
def dropNotes (count : Nat) (notes : List Slot) : List Slot :=
  if count = 0 then [] else notes.take (notes.length - count)

/-- Hands a diagnostic to an engine. -/
def process (engine : EngineId) (slot : Slot) : Act Unit := do
  match ← fetch engine with
  | .collecting received =>
    update engine fun _ => .collecting (received ++ [slot])
  | .reporting errorsAreFatal notes =>
    let id ← diagnosticIn slot
    update id fun d => { d with notes := d.notes ++ notes }
    let d ← fetch id
    let lines ← ask d.render
    record ⟨.diagnostics, d.level.severity, "\n".intercalate lines⟩
    if d.level = .fatal ∨ (errorsAreFatal ∧ d.level = .error) then throw (.raised lines)

/-- Makes an engine attach more notes. A collecting engine attaches none. -/
def pushNotes (engine : EngineId) (notes : List Slot) : Act Unit := do
  match ← fetch engine with
  | .collecting _ => throw .noSuchMember
  | .reporting .. => update engine (·.mapNotes (· ++ notes))

/-- Makes an engine give back the last `count` notes. -/
def popNotes (engine : EngineId) (count : Nat) : Act Unit :=
  update engine (·.mapNotes (dropNotes count))

/-- The lines of each diagnostic that a collecting engine has received. -/
def receivedLines (engine : EngineId) : Act (List (List String)) := do
  match ← fetch engine with
  | .reporting .. => throw .noSuchMember
  | .collecting received =>
    received.mapM fun slot => do
      let d ← fetch (← diagnosticIn slot)
      ask d.render

end SsaDebugInfo
