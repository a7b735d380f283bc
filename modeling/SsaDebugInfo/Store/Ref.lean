/-!
# References

Every object of the IR and of its metadata is known by an identity that is never given out twice.
The identities of different kinds of objects are different types; `Ref` is a reference to an object
of any kind, and a `Slot` is a place that may hold one.
-/

namespace SsaDebugInfo

/-- The kinds of objects. -/
inductive Kind
  | value | node | function | module | context | layout | engine | emitter | diagnostic
  deriving DecidableEq

/-- The identity of an object of one kind. -/
structure Id (kind : Kind) where
  index : Nat
  deriving DecidableEq

abbrev ValueId := Id .value
abbrev NodeId := Id .node
abbrev FunctionId := Id .function
abbrev ModuleId := Id .module
abbrev ContextId := Id .context
abbrev LayoutId := Id .layout
abbrev EngineId := Id .engine
abbrev EmitterId := Id .emitter
abbrev DiagnosticId := Id .diagnostic

/-- A reference to an object. -/
inductive Ref
  | value (id : ValueId)
  | node (id : NodeId)
  | function (id : FunctionId)
  | module (id : ModuleId)
  | context (id : ContextId)
  | layout (id : LayoutId)
  | engine (id : EngineId)
  | emitter (id : EmitterId)
  | diagnostic (id : DiagnosticId)
  deriving DecidableEq

/-- The reference to an object of a kind by its identity. -/
def Id.ref : {kind : Kind} → Id kind → Ref
  | .value, id => .value id
  | .node, id => .node id
  | .function, id => .function id
  | .module, id => .module id
  | .context, id => .context id
  | .layout, id => .layout id
  | .engine, id => .engine id
  | .emitter, id => .emitter id
  | .diagnostic, id => .diagnostic id

/-- A place that holds a reference or nothing. -/
abbrev Slot := Option Ref

instance : LawfulBEq Slot :=
  inferInstanceAs (LawfulBEq (Option Ref))

namespace Slot

/-- A slot that holds a value. -/
abbrev ofValue (id : ValueId) : Slot := some (.value id)

/-- A slot that holds a metadata node. -/
abbrev ofNode (id : NodeId) : Slot := some (.node id)

/-- The identity in a slot, if it holds a reference to an object of the kind. -/
def id? : Slot → (kind : Kind) → Option (Id kind)
  | some (.value id), .value => some id
  | some (.node id), .node => some id
  | some (.function id), .function => some id
  | some (.module id), .module => some id
  | some (.context id), .context => some id
  | some (.layout id), .layout => some id
  | some (.engine id), .engine => some id
  | some (.emitter id), .emitter => some id
  | some (.diagnostic id), .diagnostic => some id
  | _, _ => none

theorem id?_eq_some_iff {slot : Slot} {kind : Kind} {id : Id kind} :
    slot.id? kind = some id ↔ slot = some id.ref := by
  rcases slot with _ | ref
  · simp [id?]
  · cases ref <;> cases kind <;> simp [id?, Id.ref]

/-- The value in a slot, if it holds one. -/
def value? (slot : Slot) : Option ValueId :=
  slot.id? .value

/-- The metadata node in a slot, if it holds one. -/
def node? (slot : Slot) : Option NodeId :=
  slot.id? .node

@[simp] theorem value?_eq_some_iff {slot : Slot} {id : ValueId} :
    slot.value? = some id ↔ slot = ofValue id :=
  id?_eq_some_iff

@[simp] theorem node?_eq_some_iff {slot : Slot} {id : NodeId} :
    slot.node? = some id ↔ slot = ofNode id :=
  id?_eq_some_iff

end Slot

end SsaDebugInfo
