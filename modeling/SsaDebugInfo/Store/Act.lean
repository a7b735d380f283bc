import SsaDebugInfo.Store.Basic

/-!
# Actions on the store

An operation is an action on the store: it answers or faults, and keeps the changes that it made
before the fault. The actions here are those that all others are made of: asking the store a
question, requiring something, fetching, changing and creating an object, and resolving a slot that
must hold an object of some kind.

- `Act.run`: the answer or fault of an action, and the store that it leaves.
- `Act.run_bind`: after a fault nothing more happens, and nothing is undone.
- `run_ask`, `run_fetch`, `run_update`, `run_create`: what the basic actions do.
-/

namespace SsaDebugInfo

/-- An action on the store. -/
abbrev Act (α : Type) := ExceptT Fault (StateM Store) α

/-- Runs an action, giving its answer or fault and the store it leaves. -/
def Act.run {α : Type} (act : Act α) (s : Store) : Except Fault α × Store :=
  act s

namespace Act

variable {α β : Type}

@[simp] theorem run_pure (a : α) (s : Store) : Act.run (pure a) s = (.ok a, s) := rfl

@[simp] theorem run_throw (fault : Fault) (s : Store) :
    Act.run (throw fault : Act α) s = (.error fault, s) := rfl

/-- Of two actions in turn the second sees the store that the first leaves, and does not happen if
the first faults. -/
theorem run_bind (first : Act α) (second : α → Act β) (s : Store) :
    Act.run (first >>= second) s =
      match first.run s with
      | (.ok a, s) => (second a).run s
      | (.error fault, s) => (.error fault, s) := by
  simp only [Act.run, bind, ExceptT.bind, ExceptT.mk, StateT.bind]
  rcases first s with ⟨_ | _, _⟩ <;> rfl

end Act

/-- Answers a question about the store, which it leaves as it is. -/
def ask {α : Type} (question : Store → Except Fault α) : Act α := do
  MonadExcept.ofExcept (question (← get))

@[simp] theorem run_ask {α : Type} (question : Store → Except Fault α) (s : Store) :
    (ask question).run s = (question s, s) := by
  show Act.run (MonadExcept.ofExcept (question s)) s = (question s, s)
  cases question s <;> rfl

/-- The object that a look-up found, which must be there. -/
def found {α : Type} : Option α → Except Fault α
  | some a => .ok a
  | none => .error .noSuchMember

/-- Faults unless a requirement holds. -/
def require (holds : Bool) : Act Unit :=
  if holds then pure () else throw .unmetRequirement

@[simp] theorem run_require (holds : Bool) (s : Store) :
    (require holds).run s = (if holds then .ok () else .error .unmetRequirement, s) := by
  cases holds <;> rfl

/-- Writes an entry into the journal. -/
def record (entry : Entry) : Act Unit :=
  modify fun s => { s with journal := s.journal ++ [entry] }

/-! ## Objects -/

variable {kind : Kind}

/-- The object of an identity, which must not have been collected. -/
def fetch (id : Id kind) : Act (Object kind) :=
  ask fun s => found (s.get? id)

@[simp] theorem run_fetch (id : Id kind) (s : Store) :
    (fetch id).run s = (found (s.get? id), s) :=
  run_ask _ s

/-- Changes the object of an identity, if there is one. -/
def update (id : Id kind) (f : Object kind → Object kind) : Act Unit :=
  modify fun s => s.modify id f

@[simp] theorem run_update (id : Id kind) (f : Object kind → Object kind) (s : Store) :
    (update id f).run s = (.ok (), s.modify id f) := rfl

/-- Makes an object of a kind, and answers its identity. -/
def create (kind : Kind) (object : Object kind) : Act (Id kind) := do
  let s ← get
  set (s.push kind object)
  return s.nextId kind

@[simp] theorem run_create (kind : Kind) (object : Object kind) (s : Store) :
    (create kind object).run s = (.ok (s.nextId kind), s.push kind object) := rfl

/-! ## What a slot must hold -/

/-- The identity in a slot that must hold an object of some kind; any other object lacks the member
that the caller is after. -/
def valueIn (slot : Slot) : Act ValueId :=
  ask fun s => found ((s.valueIn? slot).map (·.1))

@[inherit_doc valueIn]
def blockIn (slot : Slot) : Act ValueId :=
  ask fun s => found (s.blockIn? slot)

@[inherit_doc valueIn]
def instructionIn (slot : Slot) : Act ValueId :=
  ask fun s => found ((s.instructionIn? slot).map (·.1))

@[inherit_doc valueIn]
def idIn (kind : Kind) (slot : Slot) : Act (Id kind) :=
  ask fun _ => found (slot.id? kind)

abbrev functionIn := idIn .function
abbrev moduleIn := idIn .module
abbrev contextIn := idIn .context
abbrev layoutIn := idIn .layout
abbrev nodeIn := idIn .node
abbrev engineIn := idIn .engine
abbrev emitterIn := idIn .emitter
abbrev diagnosticIn := idIn .diagnostic

/-- The instruction in a slot, which is required to hold one. -/
def requireInstruction (slot : Slot) : Act ValueId := do
  match (← get).instructionIn? slot with
  | some (id, _) => pure id
  | none => throw .unmetRequirement

/-- The type of the value or function in a slot. -/
def typeIn (slot : Slot) : Act Ty := do
  match slot with
  | some (.function id) => return (← fetch id).type
  | _ => return (← fetch (← valueIn slot)).type

/-- Resolves an optional member: nothing stays nothing, and an object must be of the right kind. -/
def optionally {α : Type} (get : Slot → Act α) : Slot → Act (Option α)
  | none => pure none
  | slot => return some (← get slot)

/-- A written type, checked and with label types of its own. -/
def formType (t : Ty) : Act Ty := do
  require t.admissible
  let s ← get
  let (t, labelTypes) := t.withFreshLabels s.labelTypes
  set { s with labelTypes }
  return t

/-- A type that only its block has. -/
def newLabelType : Act Ty :=
  formType (.label 0)

end SsaDebugInfo
