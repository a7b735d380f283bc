import SsaDebugInfo.Ir.Print

/-!
# Diagnostics as text

A diagnostic is shown as its position, level and message on one line, the function it is about on
the next, and one line for each note.

The message may be made from a template, which is text with named places: a name between braces
stands for the argument of that name, and a doubled brace for one brace. `Template.fill` reads from
the left, so of two faults the first one in the text counts.
-/

namespace SsaDebugInfo

namespace Text.Template

/-- The argument that the inside of a pair of braces stands for. A place without a name, or with a
number for a name, asks for an argument by position; what follows a dot is a member that no argument
has. -/
def argument (arguments : List (String × Literal)) (place : List Char) : Except Fault String :=
  let name := place.takeWhile (· != '.')
  if name.all fun c => (digitValue? c).isSome then .error .positionalArgument
  else match arguments.lookup (String.ofList name) with
    | none => .error .missingArgument
    | some value =>
      if name.length < place.length then .error .noSuchMember else .ok value.display

/-- Fills the places of a template. `place` holds the inside of the braces being read, last
character first, or `none` between places. -/
def fillFrom (arguments : List (String × Literal)) :
    Option (List Char) → List Char → Except Fault (List Char)
  | none, [] => .ok []
  | some _, [] => .error .malformedTemplate
  | none, '\x7b' :: '\x7b' :: rest => do return '\x7b' :: (← fillFrom arguments none rest)
  | none, '\x7d' :: '\x7d' :: rest => do return '\x7d' :: (← fillFrom arguments none rest)
  | none, '\x7b' :: rest => fillFrom arguments (some []) rest
  | none, '\x7d' :: _ => .error .malformedTemplate
  | none, c :: rest => do return c :: (← fillFrom arguments none rest)
  | some _, '\x7b' :: _ => .error .malformedTemplate
  | some place, '\x7d' :: rest => do
    let value ← argument arguments place.reverse
    return value.toList ++ (← fillFrom arguments none rest)
  | some place, c :: rest => fillFrom arguments (some (c :: place)) rest

/-- The message that a template and its arguments make. -/
def fill (template : String) (arguments : List (String × Literal)) : Except Fault String :=
  (fillFrom arguments none template.toList).map String.ofList

end Text.Template

namespace Level

/-- The word for a level. -/
def print : Level → String
  | note => "note"
  | warning => "warning"
  | error => "error"
  | fatal => "fatal"

/-- The level that a word stands for. -/
def ofString? : String → Option Level
  | "note" => some note
  | "warning" => some warning
  | "error" => some error
  | "fatal" => some fatal
  | _ => none

/-- How serious the journal takes a diagnostic of this level. -/
def severity : Level → Severity
  | note => .info
  | warning => .warning
  | error => .error
  | fatal => .critical

end Level

namespace Diagnostic

variable (d : Diagnostic)

/-- The message of a diagnostic. Only a diagnostic with arguments reads its reason as a template. -/
def message : Except Fault String :=
  if d.arguments.isEmpty then .ok d.reason else Text.Template.fill d.reason d.arguments

/-- The line of a diagnostic's location. -/
def line (s : Store) : Except Fault (Option Int) :=
  match d.location with
  | none => .ok none
  | location =>
    match s.nodeIn? location with
    | some (.location line _ _ _) | some (.subprogram _ _ line _ _)
    | some (.localVariable _ _ _ line _) | some (.globalVariable _ _ _ line _) => .ok (some line)
    | _ => .error .noSuchMember

/-- The column of a diagnostic's location, if it has one. -/
def column (s : Store) : Option Int :=
  match s.nodeIn? d.location with
  | some (.location _ column _ _) => some column
  | _ => none

/-- Where the diagnostic points: file, line and, if known, column. -/
def position (s : Store) : Except Fault (Option String) :=
  match d.location with
  | none => .ok none
  | location => do
    let filename := (← s.filenameOf location).getD ""
    let line ← d.line s
    return some (":".intercalate
      ((if filename.isEmpty then "<unknown>" else filename) ::
        line.toList.map toString ++ (d.column s).toList.map toString))

/-- The line that says what is wrong, and where. -/
def headline (s : Store) : Except Fault String := do
  let place ← d.position s
  let text := d.level.print ++ ": " ++ (← d.message)
  return match place with
    | none => text
    | some place => place ++ ": " ++ text

/-- The line of a note. -/
def noteLine (s : Store) (note : Slot) : Except Fault String :=
  match note with
  | some (.diagnostic id) => do (← found (s.get? id)).headline s
  | _ => .error .noSuchMember

/-- The line that names the function that the diagnostic is about. -/
def functionLine (s : Store) : Except Fault (List String) :=
  match d.function with
  | none => .ok []
  | some ref => do return ["  in function '" ++ (← found (s.nameOf? ref)) ++ "'"]

/-- All lines of a diagnostic. -/
def render (s : Store) : Except Fault (List String) := do
  let headline ← d.headline s
  let function ← d.functionLine s
  return headline :: function ++ (← d.notes.mapM (noteLine s))

/-- How a diagnostic is shown among other objects. -/
def print : Except Fault String := do
  return "<dbgprop.compiler.diagnostic.DiagnosticInfo " ++ d.level.print ++ " " ++
    Text.Quoted.encode (← d.message) ++ ">"

end Diagnostic

/-- Makes a diagnostic of the level that a word stands for. -/
def makeDiagnostic (level : Option String) (diagnostic : Level → Diagnostic) :
    Act DiagnosticId := do
  match level.bind Level.ofString? with
  | some level => create .diagnostic (diagnostic level)
  | none => throw .unknownLevel

end SsaDebugInfo
