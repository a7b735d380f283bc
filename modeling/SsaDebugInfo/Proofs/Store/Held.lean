import SsaDebugInfo.Liveness

/-!
# What objects hold

`Kind.slots` lists the places of an object that keep others alive, kind by kind, and `Store.Has`
says that a reference still leads to an object. A store is `Store.Closed` if no object holds a
reference that leads nowhere.

- `forall_get?_modify`, `forall_get?_push`: what holds of every object after one object has been
  changed or added, over objects of all kinds at once.
- `Closed.modify`, `Closed.push`: a change or a new object keeps a store closed if it holds only
  what is there.
-/

namespace SsaDebugInfo

/-- The places of an object that keep an object alive. -/
def Kind.slots : (kind : Kind) → Object kind → List Slot
  | .value => Value.slots
  | .node => Node.slots
  | .function => Function.slots
  | .module => Module.slots
  | .context => fun _ => []
  | .layout => fun _ => []
  | .engine => Engine.slots
  | .emitter => fun e => [some (.engine e.engine)]
  | .diagnostic => Diagnostic.slots

/-- All places of a value that keep an object alive have a property, aspect by aspect. -/
structure Value.HoldsOnly (P : Slot → Prop) (v : Value) : Prop where
  uses : ∀ u ∈ v.uses, P (.ofValue u)
  context : ∀ c, v.context = some c → P (some (.context c))
  wrapped : ∀ n, v.wrapped? = some n → P (.ofNode n)
  initializer : ∀ g, v.global? = some g → P g.initializer
  module : ∀ g, v.global? = some g → ∀ m, g.module = some m → P (some (.module m))
  function : ∀ f, v.function? = some f → P (some (.function f))
  operands : ∀ o ∈ v.operands, P o
  instructions : ∀ i ∈ v.instructions, P i
  block : ∀ b, v.block? = some b → P (.ofValue b)
  loc : ∀ i, v.instruction? = some i → P i.loc
  var : ∀ b, v.binding? = some b → P b.var
  expression : ∀ b, v.binding? = some b → P b.expression

theorem Value.holdsOnly_iff {P : Slot → Prop} {v : Value} :
    v.HoldsOnly P ↔ ∀ slot ∈ v.slots, P slot := by
  have hslots : (∀ slot ∈ v.slots, P slot) ↔
      (∀ u ∈ v.uses, P (.ofValue u)) ∧ (∀ c, v.context = some c → P (some (.context c))) ∧
      (∀ n, v.wrapped? = some n → P (.ofNode n)) ∧ (∀ g, v.global? = some g → P g.initializer) ∧
      (∀ g, v.global? = some g → ∀ m, g.module = some m → P (some (.module m))) ∧
      (∀ f, v.function? = some f → P (some (.function f))) ∧ (∀ o ∈ v.operands, P o) ∧
      (∀ i ∈ v.instructions, P i) ∧ (∀ b, v.block? = some b → P (.ofValue b)) ∧
      (∀ i, v.instruction? = some i → P i.loc) ∧ (∀ b, v.binding? = some b → P b.var) ∧
      (∀ b, v.binding? = some b → P b.expression) := by
    obtain ⟨_, shape, _, _⟩ := v
    -- of the shapes only an instruction holds what depends on a further choice, its opcode
    cases shape with
    | instruction _ _ i =>
      obtain ⟨opcode, _, _⟩ := i
      cases opcode <;>
        simp [Value.slots, Value.wrapped?, Value.global?, Value.function?, Value.operands,
          Value.instructions, Value.block?, Value.instruction?, Value.binding?, Value.opcode?,
          Value.site?, Opcode.binding?, or_imp, forall_and]
    | _ =>
      simp [Value.slots, Value.wrapped?, Value.global?, Value.function?, Value.operands,
        Value.instructions, Value.block?, Value.instruction?, Value.binding?, Value.opcode?,
        Value.site?, or_imp, forall_and]
  rw [hslots]
  constructor
  · rintro ⟨h1, h2, h3, h4, h5, h6, h7, h8, h9, h10, h11, h12⟩
    exact ⟨h1, h2, h3, h4, h5, h6, h7, h8, h9, h10, h11, h12⟩
  · rintro ⟨h1, h2, h3, h4, h5, h6, h7, h8, h9, h10, h11, h12⟩
    exact ⟨h1, h2, h3, h4, h5, h6, h7, h8, h9, h10, h11, h12⟩

namespace Store

variable {kind : Kind} {s t : Store}

/-- Whether a reference leads to an object. -/
def Has (s : Store) : Ref → Prop
  | .value id => (s.get? id).isSome
  | .node id => (s.get? id).isSome
  | .function id => (s.get? id).isSome
  | .module id => (s.get? id).isSome
  | .context id => (s.get? id).isSome
  | .layout id => (s.get? id).isSome
  | .engine id => (s.get? id).isSome
  | .emitter id => (s.get? id).isSome
  | .diagnostic id => (s.get? id).isSome

instance (s : Store) : DecidablePred s.Has
  | .value _ | .node _ | .function _ | .module _ | .context _ | .layout _ | .engine _ | .emitter _
  | .diagnostic _ => inferInstanceAs (Decidable (_ = true))

/-- Whether a slot that holds a reference holds one that leads to an object. -/
def HasIn (s : Store) (slot : Slot) : Prop :=
  ∀ ref, slot = some ref → s.Has ref

theorem has_ref (id : Id kind) : s.Has id.ref ↔ (s.get? id).isSome := by
  cases kind <;> exact Iff.rfl

theorem exists_id (ref : Ref) : ∃ kind, ∃ id : Id kind, id.ref = ref := by
  cases ref with
  | value id => exact ⟨.value, id, rfl⟩
  | node id => exact ⟨.node, id, rfl⟩
  | function id => exact ⟨.function, id, rfl⟩
  | module id => exact ⟨.module, id, rfl⟩
  | context id => exact ⟨.context, id, rfl⟩
  | layout id => exact ⟨.layout, id, rfl⟩
  | engine id => exact ⟨.engine, id, rfl⟩
  | emitter id => exact ⟨.emitter, id, rfl⟩
  | diagnostic id => exact ⟨.diagnostic, id, rfl⟩

theorem has_value_iff {id : ValueId} : s.Has (.value id) ↔ ∃ v, s.get? id = some v :=
  Option.isSome_iff_exists

theorem hasIn_none : s.HasIn none := fun _ h => nomatch h

theorem hasIn_some {ref : Ref} : s.HasIn (some ref) ↔ s.Has ref := by
  constructor
  · intro h
    exact h ref rfl
  · rintro h _ ⟨⟩
    exact h

/-- A slot that holds a value which is there is read back as that value. -/
theorem valueIn?_eq_some {slot : Slot} {id : ValueId} {v : Value} :
    s.valueIn? slot = some (id, v) ↔ slot = .ofValue id ∧ s.get? id = some v := by
  constructor
  · intro h
    cases hid : slot.value? with
    | none => simp [valueIn?, hid] at h
    | some id' =>
      cases hv : s.get? id' with
      | none => simp [valueIn?, hid, hv] at h
      | some v' =>
        simp only [valueIn?, hid, hv, Option.bind_eq_bind, Option.bind_some, Option.pure_def,
          Option.some.injEq, Prod.mk.injEq] at h
        obtain ⟨rfl, rfl⟩ := h
        exact ⟨Slot.value?_eq_some_iff.mp hid, hv⟩
  · rintro ⟨rfl, h⟩
    simp [valueIn?, Slot.value?, Slot.id?, h]

theorem blockIn?_eq_some {slot : Slot} {id : ValueId} :
    s.blockIn? slot = some id ↔
      slot = .ofValue id ∧ ∃ v, s.get? id = some v ∧ v.isBlock = true := by
  rw [blockIn?, Option.bind_eq_bind, Option.bind_eq_some_iff]
  constructor
  · rintro ⟨⟨id', v⟩, hin, h⟩
    dsimp only at h
    by_cases hb : v.isBlock = true
    · rw [if_pos hb] at h
      cases h
      obtain ⟨rfl, hv⟩ := valueIn?_eq_some.mp hin
      exact ⟨rfl, v, hv, hb⟩
    · rw [if_neg hb] at h
      cases h
  · rintro ⟨rfl, v, hv, hb⟩
    exact ⟨(id, v), valueIn?_eq_some.mpr ⟨rfl, hv⟩, if_pos hb⟩

theorem instructionIn?_eq_some {slot : Slot} {id : ValueId} {i : Instruction} :
    s.instructionIn? slot = some (id, i) ↔
      slot = .ofValue id ∧ ∃ v, s.get? id = some v ∧ v.instruction? = some i := by
  rw [instructionIn?, Option.bind_eq_bind, Option.bind_eq_some_iff]
  constructor
  · rintro ⟨⟨id', v⟩, hin, h⟩
    obtain ⟨i', hi, hi'⟩ := Option.bind_eq_some_iff.mp h
    cases hi'
    obtain ⟨rfl, hv⟩ := valueIn?_eq_some.mp hin
    exact ⟨rfl, v, hv, hi⟩
  · rintro ⟨rfl, v, hv, hi⟩
    exact ⟨(id, v), valueIn?_eq_some.mpr ⟨rfl, hv⟩, by simp [hi]⟩

/-! ## Changing and adding one object -/

/-- After a change of one object a property holds of all objects if it holds of the changed one and
held of all before. -/
theorem forall_get?_modify {id : Id kind} {f : Object kind → Object kind}
    {P : (k : Kind) → Id k → Object k → Prop}
    (self : ∀ o, s.get? id = some o → P kind id (f o))
    (other : ∀ k (i : Id k) (o : Object k), s.get? i = some o → P k i o)
    (k : Kind) (i : Id k) (o : Object k) (h : (s.modify id f).get? i = some o) : P k i o := by
  by_cases hk : k = kind
  · subst hk
    by_cases hi : i = id
    · subst hi
      rw [get?_modify_self] at h
      obtain ⟨o', ho', rfl⟩ := Option.map_eq_some_iff.mp h
      exact self o' ho'
    · rw [get?_modify_other s f hi] at h
      exact other k i o h
  · rw [get?_modify_kind s id f i hk] at h
    exact other k i o h

/-- After an object has been added a property holds of all objects if it holds of the new one and
held of all before. -/
theorem forall_get?_push {object : Object kind} {P : (k : Kind) → Id k → Object k → Prop}
    (self : P kind (s.nextId kind) object)
    (other : ∀ k (i : Id k) (o : Object k), s.get? i = some o → P k i o)
    (k : Kind) (i : Id k) (o : Object k) (h : (s.push kind object).get? i = some o) : P k i o := by
  by_cases hk : k = kind
  · subst hk
    by_cases hi : i = s.nextId k
    · subst hi
      rw [get?_push_self] at h
      cases h
      exact self
    · rw [get?_push_other s object hi] at h
      exact other k i o h
  · rw [get?_push_kind s object i hk] at h
    exact other k i o h

/-- The object of an identity after a change of one object. -/
theorem get?_modify (id i : Id kind) (f : Object kind → Object kind) :
    (s.modify id f).get? i = if i = id then (s.get? i).map f else s.get? i := by
  split
  · next h => rw [h, get?_modify_self]
  · next h => exact get?_modify_other s f h

/-- What is asked of an object is answered as before a change that does not bear on it. -/
theorem asked_modify {α : Type} (question : Option (Object kind) → α) {id : Id kind}
    {f : Object kind → Object kind}
    (h : ∀ o, s.get? id = some o → question (some (f o)) = question (some o)) (i : Id kind) :
    question ((s.modify id f).get? i) = question (s.get? i) := by
  rw [get?_modify]
  split
  · next hi =>
    subst hi
    cases ho : s.get? i with
    | none => rfl
    | some o => exact h o ho
  · rfl

/-- The object of an identity after an object has been added. -/
theorem get?_push (i : Id kind) (object : Object kind) :
    (s.push kind object).get? i = if i = s.nextId kind then some object else s.get? i := by
  split
  · next h => rw [h, get?_push_self]
  · next h => exact get?_push_other s object h

@[simp] theorem get?_nextId : s.get? (s.nextId kind) = none :=
  (s.table kind).get?_nextId

/-- What is there is not what comes next. -/
theorem ne_nextId {id : Id kind} (h : s.Has id.ref) : id ≠ s.nextId kind := by
  rintro rfl
  have hsome := (has_ref _).mp h
  rw [get?_nextId] at hsome
  cases hsome

theorem get?_push_of_has (id : Id kind) (object : Object kind) (h : s.Has id.ref) :
    (s.push kind object).get? id = s.get? id :=
  get?_push_other s object (ne_nextId h)

theorem has_modify {id : Id kind} {f : Object kind → Object kind} {ref : Ref} :
    (s.modify id f).Has ref ↔ s.Has ref := by
  obtain ⟨k, i, rfl⟩ := exists_id ref
  rw [has_ref, has_ref]
  by_cases hk : k = kind
  · subst hk
    rw [get?_modify]
    split <;> simp
  · rw [get?_modify_kind s id f i hk]

theorem has_push {object : Object kind} {ref : Ref} :
    (s.push kind object).Has ref ↔ ref = (s.nextId kind).ref ∨ s.Has ref := by
  obtain ⟨k, i, rfl⟩ := exists_id ref
  rw [has_ref, has_ref]
  by_cases hk : k = kind
  · subst hk
    have hinj : i.ref = (s.nextId k).ref ↔ i = s.nextId k := by
      cases k <;> simp [Id.ref]
    rw [get?_push, hinj]
    split
    · next h => simp [h]
    · next h => simp [h]
  · -- objects of different kinds have different references, even at equal indices
    rw [get?_push_kind s object i hk]
    have hne : i.ref ≠ (s.nextId kind).ref := by
      cases k <;> cases kind <;> simp_all [Id.ref]
    simp [hne]

/-! ## Closed stores -/

/-- No object holds a reference that leads nowhere, and the global context is there. -/
structure Closed (s : Store) : Prop where
  held : ∀ {kind : Kind} (id : Id kind) {o : Object kind}, s.get? id = some o →
    ∀ slot ∈ kind.slots o, s.HasIn slot
  global : s.Has (.context globalContext)

/-- A value of a closed store holds only what is there. -/
theorem Closed.holdsOnly (hs : s.Closed) {id : ValueId} {v : Value} (h : s.get? id = some v) :
    v.HoldsOnly s.HasIn :=
  Value.holdsOnly_iff.mpr fun slot hslot => hs.held id h slot hslot

/-- The variable that a record describes is there. -/
theorem Closed.hasIn_var (hs : s.Closed) {r : ValueId} {b : Binding}
    (hb : (s.get? r).bind Value.binding? = some b) : s.HasIn b.var := by
  obtain ⟨o, ho, hb⟩ := Option.bind_eq_some_iff.mp hb
  exact (hs.holdsOnly ho).var b hb

/-- So is its expression. -/
theorem Closed.hasIn_expression (hs : s.Closed) {r : ValueId} {b : Binding}
    (hb : (s.get? r).bind Value.binding? = some b) : s.HasIn b.expression := by
  obtain ⟨o, ho, hb⟩ := Option.bind_eq_some_iff.mp hb
  exact (hs.holdsOnly ho).expression b hb

/-- The location of an instruction is there. -/
theorem Closed.hasIn_loc (hs : s.Closed) {x : ValueId} {loc : Slot}
    (hloc : (s.instruction? x).map Instruction.loc = some loc) : s.HasIn loc := by
  obtain ⟨i, hi, rfl⟩ := Option.map_eq_some_iff.mp hloc
  obtain ⟨o, ho, hi⟩ := Option.bind_eq_some_iff.mp hi
  exact (hs.holdsOnly ho).loc i hi

/-- The initial store has no object but the global context. -/
theorem get?_initial (id : Id kind) (h : kind ≠ .context) : Store.initial.get? id = none := by
  cases kind with
  | context => exact absurd rfl h
  | _ => exact Table.get?_empty id

/-- The contexts of the initial store have no entries. -/
theorem eq_of_get?_initial {id : ContextId} {c : Context}
    (h : Store.initial.get? id = some c) : c = {} := by
  by_cases hid : id = (Table.empty : Table .context Context).nextId
  · subst hid
    cases h
    rfl
  · have hnone : Store.initial.get? id = none :=
      (Table.get?_push_other _ _ hid).trans (Table.get?_empty id)
    rw [hnone] at h
    cases h

theorem closed_initial : Store.initial.Closed where
  held {kind} id o h slot hslot := by
    by_cases hk : kind = .context
    · subst hk
      cases hslot
    · rw [get?_initial id hk] at h
      cases h
  global := rfl

namespace Closed

/-- A change of one object keeps a store closed if the object then holds only what is there. -/
theorem modify (hs : s.Closed) {id : Id kind} {f : Object kind → Object kind}
    (hf : ∀ o, s.get? id = some o → ∀ slot ∈ kind.slots (f o), s.HasIn slot) :
    (s.modify id f).Closed where
  held _ _ h slot hslot ref href := by
    refine has_modify.mpr ?_
    exact forall_get?_modify (P := fun k _ o => ∀ slot ∈ k.slots o, s.HasIn slot) hf
      (fun _ id _ => hs.held id) _ _ _ h slot hslot ref href
  global := has_modify.mpr hs.global

/-- A new object keeps a store closed if it holds only what is there. -/
theorem push (hs : s.Closed) {object : Object kind}
    (ho : ∀ slot ∈ kind.slots object, s.HasIn slot) : (s.push kind object).Closed where
  held _ _ h slot hslot ref href := by
    refine has_push.mpr (.inr ?_)
    exact forall_get?_push (P := fun k _ o => ∀ slot ∈ k.slots o, s.HasIn slot) ho
      (fun _ id _ => hs.held id) _ _ _ h slot hslot ref href
  global := has_push.mpr (.inr hs.global)

end Closed

end Store

end SsaDebugInfo
