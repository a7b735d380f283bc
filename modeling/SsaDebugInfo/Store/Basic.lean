import SsaDebugInfo.Store.Object
import SsaDebugInfo.Store.Table

/-!
# The store

The store holds all objects, kind by kind, and the journal. Some operations write down there what
they did: an entry names the part of the library it comes from, how serious it is, and says in words
what happened.

- `Store.get?`, `Store.modify`, `Store.push`: an object by its identity, a change of one object, and
  a new object, for all kinds alike; the lemmas beside them say what `get?` finds after the others.
- `Store.valueIn?` and the like: what a slot holds.
-/

namespace SsaDebugInfo

/-- The part of the library that an entry comes from. -/
inductive Source
  | records | modules | loader | diagnostics
  deriving DecidableEq

/-- How serious an entry is. -/
inductive Severity
  | debug | info | warning | error | critical
  deriving DecidableEq

/-- An entry of the journal. -/
structure Entry where
  source : Source
  severity : Severity
  text : String
  deriving DecidableEq

/-- All objects, the number of label types made, and the journal. -/
structure Store where
  values : Table .value Value := .empty
  nodes : Table .node Node := .empty
  functions : Table .function Function := .empty
  modules : Table .module Module := .empty
  contexts : Table .context Context := .empty
  layouts : Table .layout Layout := .empty
  engines : Table .engine Engine := .empty
  emitters : Table .emitter Emitter := .empty
  diagnostics : Table .diagnostic Diagnostic := .empty
  labelTypes : Nat := 0
  journal : List Entry := []

/-- The context of values and modules that name no other. -/
def globalContext : ContextId := ⟨0⟩

/-- The store with nothing in it but the global context. -/
def Store.initial : Store :=
  { contexts := Table.empty.push {} }

namespace Store

/-! ## Objects by identity -/

/-- The objects of one kind. -/
def table (s : Store) : (kind : Kind) → Table kind (Object kind)
  | .value => s.values
  | .node => s.nodes
  | .function => s.functions
  | .module => s.modules
  | .context => s.contexts
  | .layout => s.layouts
  | .engine => s.engines
  | .emitter => s.emitters
  | .diagnostic => s.diagnostics

/-- The store with other objects of one kind. -/
def setTable (s : Store) : (kind : Kind) → Table kind (Object kind) → Store
  | .value, values => { s with values }
  | .node, nodes => { s with nodes }
  | .function, functions => { s with functions }
  | .module, modules => { s with modules }
  | .context, contexts => { s with contexts }
  | .layout, layouts => { s with layouts }
  | .engine, engines => { s with engines }
  | .emitter, emitters => { s with emitters }
  | .diagnostic, diagnostics => { s with diagnostics }

variable {kind : Kind}

@[simp] theorem table_setTable_self (s : Store) (t : Table kind (Object kind)) :
    (s.setTable kind t).table kind = t := by
  cases kind <;> rfl

theorem table_setTable_other (s : Store) (t : Table kind (Object kind)) {other : Kind}
    (h : other ≠ kind) : (s.setTable kind t).table other = s.table other := by
  cases kind <;> cases other <;> simp_all [table, setTable]

/-- The object of an identity, unless it has been collected. -/
def get? (s : Store) (id : Id kind) : Option (Object kind) :=
  (s.table kind).get? id

/-- Changes the object of an identity, if there is one. -/
def modify (s : Store) (id : Id kind) (f : Object kind → Object kind) : Store :=
  s.setTable kind ((s.table kind).modify id f)

/-- The identity that the next object of a kind gets. -/
def nextId (s : Store) (kind : Kind) : Id kind :=
  (s.table kind).nextId

/-- Adds an object under the next identity of its kind. -/
def push (s : Store) (kind : Kind) (object : Object kind) : Store :=
  s.setTable kind ((s.table kind).push object)

@[simp] theorem get?_modify_self (s : Store) (id : Id kind) (f : Object kind → Object kind) :
    (s.modify id f).get? id = (s.get? id).map f := by
  simp [modify, get?]

theorem get?_modify_other (s : Store) {id other : Id kind} (f : Object kind → Object kind)
    (h : other ≠ id) : (s.modify id f).get? other = s.get? other := by
  simp [modify, get?, Table.get?_modify_other _ f h]

theorem get?_modify_kind (s : Store) {other : Kind} (id : Id kind) (f : Object kind → Object kind)
    (id' : Id other) (h : other ≠ kind) : (s.modify id f).get? id' = s.get? id' := by
  simp [modify, get?, table_setTable_other _ _ h]

@[simp] theorem get?_push_self (s : Store) (object : Object kind) :
    (s.push kind object).get? (s.nextId kind) = some object := by
  simp [push, get?, nextId]

theorem get?_push_other (s : Store) (object : Object kind) {id : Id kind}
    (h : id ≠ s.nextId kind) : (s.push kind object).get? id = s.get? id := by
  simp [push, get?, Table.get?_push_other _ object h]

theorem get?_push_kind (s : Store) {other : Kind} (object : Object kind) (id : Id other)
    (h : other ≠ kind) : (s.push kind object).get? id = s.get? id := by
  simp [push, get?, table_setTable_other _ _ h]

end Store

namespace Store

/-! ## What slots hold -/

variable (s : Store)

/-- The value in a slot, with its identity. -/
def valueIn? (slot : Slot) : Option (ValueId × Value) := do
  let id ← slot.value?
  return (id, ← s.get? id)

/-- The metadata node in a slot. -/
def nodeIn? (slot : Slot) : Option Node :=
  slot.node?.bind s.get?

/-- The instruction that a value is. -/
def instruction? (id : ValueId) : Option Instruction :=
  (s.get? id).bind (·.instruction?)

/-- The instruction in a slot, with its identity. -/
def instructionIn? (slot : Slot) : Option (ValueId × Instruction) := do
  let (id, v) ← s.valueIn? slot
  return (id, ← v.instruction?)

/-- The block in a slot. -/
def blockIn? (slot : Slot) : Option ValueId := do
  let (id, v) ← s.valueIn? slot
  if v.isBlock then some id else none

/-- The users of a value. -/
def usesOf (v : ValueId) : List ValueId :=
  ((s.get? v).map (·.uses)).getD []

/-- The operands of a user. -/
def operandsOf (v : ValueId) : List Slot :=
  ((s.get? v).map (·.operands)).getD []

/-- The instructions of a block. -/
def instructionsOf (v : ValueId) : List Slot :=
  ((s.get? v).map (·.instructions)).getD []

/-- The function that a value belongs to. -/
def functionOf? (v : ValueId) : Option FunctionId :=
  (s.get? v).bind (·.function?)

/-- The block that an instruction stands in. -/
def blockOf? (v : ValueId) : Option ValueId :=
  (s.get? v).bind (·.block?)

/-- The name that an object has, if objects of its kind have one. -/
def nameOf? : Ref → Option String
  | .value id => (s.get? id).bind (·.name?)
  | .node id => (s.get? id).bind (·.name?)
  | .function id => (s.get? id).map (·.name)
  | .module id => (s.get? id).map (·.name)
  | _ => none

end Store

end SsaDebugInfo
