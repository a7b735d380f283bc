import SsaDebugInfo.Diagnostics.Render
import SsaDebugInfo.Handles
import SsaDebugInfo.Script.Operation

/-!
# What a script shows

Answers name objects by label, and an object without one by a tilde and its text. A view is the
labels and the store that an answer is read off.
-/

namespace SsaDebugInfo.Script

/-- Labels with what they are bound to, in the order in which they were first bound. -/
abbrev Labels := List (Label × Slot)

namespace Labels

/-- Binds a label; a label that is bound already keeps its place. -/
def bind (labels : Labels) (label : Label) (slot : Slot) : Labels :=
  if labels.any (·.1 == label) then
    labels.map fun entry => if entry.1 == label then (label, slot) else entry
  else labels ++ [(label, slot)]

/-- Forgets a label. -/
def drop (labels : Labels) (label : Label) : Labels :=
  labels.filter (·.1 != label)

/-- The label of an object that was bound first. -/
def labelOf? (labels : Labels) (ref : Ref) : Option Label :=
  (labels.find? (·.2 == some ref)).map (·.1)

/-- What is given: nothing, or what its label is bound to. -/
def get (labels : Labels) : Given → Except Fault Slot
  | none => .ok none
  | some label =>
    match labels.lookup label with
    | some slot => .ok slot
    | none => .error (.unknownLabel label)

end Labels

/-- How an object is named in an answer; nothing has no name. -/
abbrev Shown := Option String

/-- What can be told about a value. What it does not have is left out. -/
structure Info where
  type : String
  uses : List String
  name : Option String
  function : Option Shown
  operands : Option (List Shown)
  /-- The block and the location of an instruction. -/
  place : Option (Shown × Shown)
  /-- The variable, expression and offset of a debug record. -/
  binding : Option (Shown × Shown × Int)
  deriving DecidableEq

/-- What can be told about a diagnostic. -/
structure Report where
  level : Level
  message : String
  function : Shown
  location : Shown
  line : Option Int
  column : Option Int
  render : List String
  headline : String
  notes : Nat
  text : String

/-- The answer of an operation. -/
inductive Answer
  | nothing
  | flag (value : Bool)
  | number (value : Int)
  | text (value : String)
  | object (shown : Shown)
  | objects (shown : List Shown)
  | pairs (shown : List (Shown × Shown))
  | texts (texts : List String)
  | info (info : Info)
  | index (units subprograms globals : List Shown)
  | names (names : List String) (next : Nat)
  | expression (text : String) (piece : Option Expression.BitPiece)
  /-- A handle: its kind, its text, and whether asking again gives the same one. -/
  | handle (kind text : String) (same : Bool)
  | existingHandle (kind text : String)
  | tables (handles wrappers : Nat)
  | sizes (sizes : List (String × Int))
  | emitter (engine : String) (depth : Nat)
  | report (report : Report)
  | received (diagnostics : List (List String))

/-- What answers are read off. -/
structure View where
  labels : Labels
  store : Store

namespace View

variable (view : View)

/-- The text of an object, as far as objects of its kind have one. -/
def text (ref : Ref) : Except Fault String :=
  match ref with
  | .value id => view.store.valueText true id
  | .node id => view.store.printNode id
  | .function _ | .module _ => found (view.store.nameOf? ref)
  | _ => .ok ""

/-- How an object is named. -/
def name (ref : Ref) : Except Fault String :=
  match view.labels.labelOf? ref with
  | some label => .ok label
  | none => return "~" ++ (← view.text ref)

/-- How what is in a slot is named. -/
def shown : Slot → Except Fault Shown
  | none => .ok none
  | some ref => return some (← view.name ref)

/-- What can be told about a value. -/
def info (ref : Ref) : Except Fault Info := do
  let (_, v) ← found (view.store.valueIn? (some ref))
  let uses ← v.uses.mapM fun user => view.name (.value user)
  let function ← v.site?.mapM fun site => view.shown (site.function.map Ref.function)
  let operands ←
    if v.isUser then some <$> v.operands.mapM view.shown else pure none
  let place ← v.instruction?.mapM fun i => do
    return (← view.shown (i.block.map Ref.value), ← view.shown i.loc)
  let binding ← v.binding?.mapM fun binding => do
    return (← view.shown binding.var, ← view.shown binding.expression, binding.offset)
  return { type := v.type.print, uses := Text.sorted uses, name := v.name?, function, operands,
           place, binding }

/-- What can be told about a diagnostic. -/
def report (id : DiagnosticId) : Except Fault Report := do
  let d ← found (view.store.get? id)
  let message ← d.message
  let function ← view.shown d.function
  let location ← view.shown d.location
  let line ← d.line view.store
  let render ← d.render view.store
  let headline ← d.headline view.store
  let text ← d.print
  return { level := d.level, message, function, location, line, column := d.column view.store,
           render, headline, notes := d.notes.length, text }

/-- The text of an object in full: what a dump shows. -/
def dump (locs : Bool) : Slot → Except Fault String
  | none => .ok "None"
  | some (.value id) => view.store.valueText locs id
  | some (.node id) => view.store.printNode id
  | some (.function id) => view.store.functionText locs id
  | some (.module id) => view.store.moduleText locs id
  | some (.layout id) => return (← found (view.store.get? id)).print
  | some (.diagnostic id) => do (← found (view.store.get? id)).print
  | some _ => .ok ""

/-- An object as it is shown among others. -/
def showAmongOthers (slot : Slot) : Except Fault String :=
  match slot with
  | some (.node id) => view.store.printNode id
  | some (.value id) => .ok (view.store.printForeign (.value id))
  | _ => view.dump true slot

end View

/-- What is shown of a watched label. -/
inductive Snapshot
  | unbound
  | text (text : String)
  | info (info : Info)
  | fault (fault : Fault)
  deriving DecidableEq

/-- What is shown of a label now: the text of a module, function or block, and what can be told
about anything else. -/
def View.snapshot (view : View) (label : Label) : Snapshot :=
  let ofText : Except Fault String → Snapshot
    | .ok text => .text text
    | .error fault => .fault fault
  match view.labels.lookup label with
  | none | some none => .unbound
  | some (some ref) =>
    match ref, view.store.blockIn? (some ref) with
    | .module _, _ | .function _, _ | _, some _ => ofText (view.dump true (some ref))
    | _, none =>
      match view.info ref with
      | .ok info => .info info
      | .error fault => .fault fault

end SsaDebugInfo.Script
