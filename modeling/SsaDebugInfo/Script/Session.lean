import SsaDebugInfo.Liveness
import SsaDebugInfo.Script.Perform.Diagnostics
import SsaDebugInfo.Script.Perform.Make
import SsaDebugInfo.Script.Perform.Metadata
import SsaDebugInfo.Script.Perform.Modules
import SsaDebugInfo.Script.Perform.Question
import SsaDebugInfo.Script.Perform.Records

/-!
# Sessions

Each operation finds the objects that its labels are bound to, acts on the store, and leaves an
outcome. A session runs the commands of a script one after another. A command that faults does not
stop the script, and what it did before stays. After each command the objects that no label leads to
are collected, the journal is handed over, and the watched labels that show something new are shown.
-/

namespace SsaDebugInfo.Script

/-- Performs an operation. -/
def Operation.perform (labels : Labels) : Operation → Act Outcome
  | .metadata operation => performMetadata labels operation
  | .modules operation => performModules labels operation
  | .make value => performMake labels value
  | .change what => performChange labels what
  | .ask question => performQuestion labels question
  | .records operation => performRecords labels operation
  | .layouts operation => performLayouts labels operation
  | .diagnostics operation => performDiagnostics labels operation

/-- The state between two commands: the store, the labels, what unfinished commands hold on to, and
what was last shown of the watched labels. -/
structure Session where
  store : Store := .initial
  labels : Labels := [("global", some (.context globalContext))]
  pinned : List Slot := []
  shown : List (Label × Snapshot) := []

/-- What a command did: its result, its journal, and what watched labels show since. -/
inductive Step
  | done (answer : Answer) (journal : List Entry) (state : List (Label × Snapshot))
  | failed (fault : Fault) (journal : List Entry) (state : List (Label × Snapshot))
  /-- Commands run with notes attached, and whether a fault ended them. -/
  | withNotes (escaped : Bool) (steps : List Step) (journal : List Entry)
      (state : List (Label × Snapshot))

/-- Whether a step is that of a command that faulted. -/
def Step.isFailed : Step → Bool
  | failed .. => true
  | _ => false

namespace Session

/-- What answers are read off. -/
def view (session : Session) : View :=
  { labels := session.labels, store := session.store }

/-- Runs an action on the store. -/
def act {α : Type} (session : Session) (action : Act α) : Except Fault α × Session :=
  let (result, store) := action.run session.store
  (result, { session with store })

/-- The objects that stay alive by themselves. -/
def roots (session : Session) : List Slot :=
  session.labels.map (·.2) ++ session.pinned

/-- Watched labels that show something else than they last did. -/
def changes (session : Session) (watch : List Label) : List (Label × Snapshot) :=
  watch.eraseDups.filterMap fun label =>
    let snapshot := session.view.snapshot label
    if session.shown.lookup label = some snapshot then none else some (label, snapshot)

/-- Ends a command: collects what is out of reach, empties the journal, and notes what watched
labels show. -/
def settle (watch : List Label) (session : Session)
    (step : List Entry → List (Label × Snapshot) → Step) : Session × Step :=
  let journal := session.store.journal
  let store := { session.store with journal := [] }.collect session.roots
  let session := { session with store }
  let changes := session.changes watch
  let kept := session.shown.filter fun entry => (changes.lookup entry.1).isNone
  ({ session with shown := kept ++ changes }, step journal changes)

/-- Puts what an operation has made at the end of a block or function: an instruction goes into a
block, and a block into a function. -/
def enter (container made : Slot) : Act Unit := do
  let s ← get
  match s.instructionIn? made, s.blockIn? made with
  | some (id, _), _ => appendTo (← blockIn container) id
  | _, some id => addBlock (← functionIn container) id
  | _, _ => pure ()

/-- Binds the object that an operation has made. -/
def bindMade (session : Session) (bindTo : Given) (outcome : Outcome) : Session :=
  match bindTo, outcome.made with
  | some label, some slot => { session with labels := session.labels.bind label slot }
  | _, _ => session

/-- Runs an operation: performs it, binds its object, puts the object where it belongs, and reads
off the answer. -/
def runOperation (session : Session) (operation : Operation) (bindTo into : Given) :
    Except Fault Answer × Session :=
  match session.act (operation.perform session.labels) with
  | (.error fault, session) => (.error fault, session)
  | (.ok outcome, session) =>
    let session := session.bindMade bindTo outcome
    let entered := session.act do
      if into.isSome then
        enter (← session.labels.look into) (outcome.made.getD none)
    match entered with
    | (.error fault, session) => (.error fault, session)
    | (.ok (), session) => (outcome.answer session.view, session)

/-- Forgets a label, which must be bound. -/
def drop (session : Session) (label : Label) : Except Fault Answer × Session :=
  match session.labels.get (some label) with
  | .error fault => (.error fault, session)
  | .ok _ => (.ok .nothing, { session with labels := session.labels.drop label })

/-- Starts attaching notes: answers the engine, and pins it and the notes. -/
def openNotes (session : Session) (engine : Given) (notes : List Given) :
    Except Fault (EngineId × Nat) × Session :=
  let opened := session.act do
    let slot ← session.labels.look engine
    let id ← engineIn slot
    match ← fetch id with
    | .collecting _ => throw .noSuchMember
    | .reporting .. =>
      let notes ← session.labels.lookAll notes
      pushNotes id notes
      return (id, slot :: notes)
  match opened with
  | (.error fault, session) => (.error fault, session)
  | (.ok (id, held), session) =>
    (.ok (id, held.length - 1), { session with pinned := held ++ session.pinned })

/-- Stops attaching notes, which are given back unless a fault escaped, and lets go of the pins. -/
def closeNotes (session : Session) (engine : EngineId) (count : Nat) (escaped : Bool) : Session :=
  let session := if escaped then session else (session.act (popNotes engine count)).2
  { session with pinned := session.pinned.drop (count + 1) }

/-- The step of a command that answers or faults at once. -/
def settleResult (watch : List Label) : Except Fault Answer × Session → Session × Step
  | (.ok answer, session) => session.settle watch (.done answer)
  | (.error fault, session) => session.settle watch (.failed fault)

mutual

/-- Runs a command. -/
def step (watch : List Label) (session : Session) : Command → Session × Step
  | .run operation bindTo into =>
    settleResult watch (session.runOperation operation bindTo into)
  | .drop label => settleResult watch (session.drop label)
  | .unknown name => settleResult watch (.error (.unknownCommand name), session)
  | .withNotes engine notes body =>
    match session.openNotes engine notes with
    | (.error fault, session) => session.settle watch (.failed fault)
    | (.ok (id, count), session) =>
      let (session, steps, escaped) := runUntilFault watch session body
      (session.closeNotes id count escaped).settle watch (.withNotes escaped steps)

/-- Runs commands up to the first that faults, and answers whether one did. -/
def runUntilFault (watch : List Label) (session : Session) :
    List Command → Session × List Step × Bool
  | [] => (session, [], false)
  | command :: rest =>
    let (session, first) := step watch session command
    if first.isFailed then (session, [first], true)
    else
      let (session, steps, escaped) := runUntilFault watch session rest
      (session, first :: steps, escaped)

end

/-- Runs commands one after another, whether they fault or not. -/
def runAll (watch : List Label) (session : Session) : List Command → Session × List Step
  | [] => (session, [])
  | command :: rest =>
    let (session, first) := session.step watch command
    let (session, steps) := runAll watch session rest
    (session, first :: steps)

end Session

/-- Runs a script in a new session. -/
def run (watch : List Label) (commands : List Command) : List Step :=
  (Session.runAll watch {} commands).2

end SsaDebugInfo.Script
