import SsaDebugInfo.Proofs.Store.Held

/-!
# What the maps of values keep

Names, links, lists, operands and global variables are changed by the maps of values. What uses,
operands, handles and wrappers are about is kept by all maps but that of operands (`Value.Like`),
and each map gives a value nothing to hold but what it puts there (`Value.HoldsOnly`). What
functions and modules hold is said aspect by aspect in the same way.
-/

namespace SsaDebugInfo

/-- All places of a function that keep an object alive have a property, aspect by aspect. -/
structure Function.HoldsOnly (P : Slot → Prop) (f : Function) : Prop where
  subprogram : P f.subprogram
  arguments : ∀ a ∈ f.arguments, P a
  blocks : ∀ b ∈ f.blocks, P (.ofValue b)
  module : ∀ m, f.module = some m → P (some (.module m))
  context : ∀ c, f.context = some c → P (some (.context c))

theorem Function.holdsOnly_iff {P : Slot → Prop} {f : Function} :
    f.HoldsOnly P ↔ ∀ slot ∈ f.slots, P slot := by
  have hslots : (∀ slot ∈ f.slots, P slot) ↔ P f.subprogram ∧ (∀ a ∈ f.arguments, P a) ∧
      (∀ b ∈ f.blocks, P (.ofValue b)) ∧ (∀ m, f.module = some m → P (some (.module m))) ∧
      (∀ c, f.context = some c → P (some (.context c))) := by
    simp [Function.slots, or_imp, forall_and]
  rw [hslots]
  constructor
  · rintro ⟨h1, h2, h3, h4, h5⟩
    exact ⟨h1, h2, h3, h4, h5⟩
  · rintro ⟨h1, h2, h3, h4, h5⟩
    exact ⟨h1, h2, h3, h4, h5⟩

/-- All places of a module that keep an object alive have a property, aspect by aspect. -/
structure Module.HoldsOnly (P : Slot → Prop) (m : Module) : Prop where
  context : P (some (.context m.context))
  layout : P (some (.layout m.layout))
  functions : ∀ f ∈ m.functions, P (some (.function f))
  globals : ∀ g ∈ m.globals, P (.ofValue g)
  units : ∀ u ∈ m.units, P u
  index : ∀ index, m.state.bind (·.index) = some index → ∀ ref ∈ index.refs, P (some ref)

theorem Module.holdsOnly_iff {P : Slot → Prop} {m : Module} :
    m.HoldsOnly P ↔ ∀ slot ∈ m.slots, P slot := by
  have hslots : (∀ slot ∈ m.slots, P slot) ↔ P (some (.context m.context)) ∧
      P (some (.layout m.layout)) ∧ (∀ f ∈ m.functions, P (some (.function f))) ∧
      (∀ g ∈ m.globals, P (.ofValue g)) ∧ (∀ u ∈ m.units, P u) ∧
      (∀ index, m.state.bind (·.index) = some index → ∀ ref ∈ index.refs, P (some ref)) := by
    have hindex : (∀ slot, ∀ index, m.state.bind (·.index) = some index →
        ∀ ref ∈ index.refs, some ref = slot → P slot) ↔
        ∀ index, m.state.bind (·.index) = some index → ∀ ref ∈ index.refs, P (some ref) := by
      constructor
      · exact fun h index hi ref href => h _ index hi ref href rfl
      · rintro h _ index hi ref href rfl
        exact h index hi ref href
    simp [Module.slots, or_imp, forall_and, hindex]
  rw [hslots]
  constructor
  · rintro ⟨h1, h2, h3, h4, h5, h6⟩
    exact ⟨h1, h2, h3, h4, h5, h6⟩
  · rintro ⟨h1, h2, h3, h4, h5, h6⟩
    exact ⟨h1, h2, h3, h4, h5, h6⟩

theorem Store.Closed.function {s : Store} (hs : s.Closed) {id : FunctionId} {f : Function}
    (h : s.get? id = some f) : f.HoldsOnly s.HasIn :=
  Function.holdsOnly_iff.mpr fun slot hslot => hs.held id h slot hslot

theorem Store.Closed.module {s : Store} (hs : s.Closed) {id : ModuleId} {m : Module}
    (h : s.get? id = some m) : m.HoldsOnly s.HasIn :=
  Module.holdsOnly_iff.mpr fun slot hslot => hs.held id h slot hslot

end SsaDebugInfo

namespace SsaDebugInfo.Value

/-- What uses, operands, handles and wrappers are about is the same. -/
structure Like (v w : Value) : Prop where
  uses : w.uses = v.uses
  operands : w.operands = v.operands
  wrapped? : w.wrapped? = v.wrapped?
  isDebugValue : w.isDebugValue = v.isDebugValue
  context : w.context = v.context

/-- What the value is and does is the same, and where it comes from. -/
structure Carries (v w : Value) : Prop where
  type : w.type = v.type
  opcode : w.opcode? = v.opcode?
  loc : w.instruction?.map (·.loc) = v.instruction?.map (·.loc)

/-- What the value is called and where it stands is the same too. -/
structure Stays (v w : Value) : Prop extends v.Carries w where
  name : w.name? = v.name?
  function : w.function? = v.function?
  block : w.block? = v.block?

theorem Carries.refl (v : Value) : v.Carries v := ⟨rfl, rfl, rfl⟩

theorem Carries.trans {u v w : Value} (huv : u.Carries v) (hvw : v.Carries w) : u.Carries w :=
  ⟨hvw.type.trans huv.type, hvw.opcode.trans huv.opcode, hvw.loc.trans huv.loc⟩

/-- An instruction stays one, and does the same. -/
theorem Carries.instruction? {v w : Value} (h : v.Carries w) {i : Instruction}
    (hi : v.instruction? = some i) : ∃ j, w.instruction? = some j ∧ j.opcode = i.opcode := by
  have hopcode : w.opcode? = some i.opcode := by
    rw [h.opcode, opcode?, hi]
    rfl
  exact Option.map_eq_some_iff.mp hopcode

theorem Stays.refl (v : Value) : v.Stays v := ⟨.refl v, rfl, rfl, rfl⟩

theorem Stays.trans {u v w : Value} (huv : u.Stays v) (hvw : v.Stays w) : u.Stays w :=
  ⟨huv.toCarries.trans hvw.toCarries, hvw.name.trans huv.name, hvw.function.trans huv.function,
    hvw.block.trans huv.block⟩

section Stays

variable (v : Value)

theorem carries_mapSite (f : Site → Site) : v.Carries (v.mapSite f) := by
  obtain ⟨_, shape, _, _⟩ := v
  cases shape <;> exact ⟨rfl, rfl, rfl⟩

theorem carries_mapBlock (block : Option ValueId) :
    v.Carries (v.mapInstruction fun i => { i with block }) := by
  obtain ⟨_, shape, _, _⟩ := v
  cases shape <;> exact ⟨rfl, rfl, rfl⟩

theorem stays_mapInstructions (f : List Slot → List Slot) : v.Stays (v.mapInstructions f) := by
  obtain ⟨_, shape, _, _⟩ := v
  cases shape <;> exact ⟨⟨rfl, rfl, rfl⟩, rfl, rfl, rfl⟩

theorem stays_mapOperands (f : List Slot → List Slot) : v.Stays (v.mapOperands f) := by
  obtain ⟨_, shape, _, _⟩ := v
  cases shape <;> exact ⟨⟨rfl, rfl, rfl⟩, rfl, rfl, rfl⟩

end Stays

section Like

variable (v : Value)

theorem like_mapSite (f : Site → Site) : v.Like (v.mapSite f) := by
  obtain ⟨_, shape, _, _⟩ := v
  cases shape <;> exact ⟨rfl, rfl, rfl, rfl, rfl⟩

theorem like_mapInstructions (f : List Slot → List Slot) : v.Like (v.mapInstructions f) := by
  obtain ⟨_, shape, _, _⟩ := v
  cases shape <;> exact ⟨rfl, rfl, rfl, rfl, rfl⟩

/-- An instruction stays a record or something else. -/
theorem like_mapInstruction {f : Instruction → Instruction}
    (h : ∀ i, (f i).opcode.isDebugValue = i.opcode.isDebugValue) : v.Like (v.mapInstruction f) := by
  obtain ⟨_, shape, _, _⟩ := v
  cases shape with
  | instruction site operands i => exact ⟨rfl, rfl, rfl, h i, rfl⟩
  | _ => exact ⟨rfl, rfl, rfl, rfl, rfl⟩

theorem wrapped?_mapOperands (f : List Slot → List Slot) :
    (v.mapOperands f).wrapped? = v.wrapped? := by
  obtain ⟨_, shape, _, _⟩ := v
  cases shape <;> rfl

theorem context_mapOperands (f : List Slot → List Slot) :
    (v.mapOperands f).context = v.context := by
  obtain ⟨_, shape, _, _⟩ := v
  cases shape <;> rfl

theorem isDebugValue_mapOperands (f : List Slot → List Slot) :
    (v.mapOperands f).isDebugValue = v.isDebugValue := by
  obtain ⟨_, shape, _, _⟩ := v
  cases shape <;> rfl

theorem operands_mapOperands {v : Value} (h : v.isUser = true) (f : List Slot → List Slot) :
    (v.mapOperands f).operands = f v.operands := by
  obtain ⟨_, shape, _, _⟩ := v
  cases shape with
  | user => rfl
  | instruction => rfl
  | _ => cases h

theorem isUser_of_isDebugValue {v : Value} (h : v.isDebugValue = true) : v.isUser = true := by
  obtain ⟨_, shape, _, _⟩ := v
  cases shape with
  | instruction site operands i => rfl
  | _ => cases h

theorem isUser_of_instruction? {v : Value} {i : Instruction} (h : v.instruction? = some i) :
    v.isUser = true := by
  obtain ⟨_, shape, _, _⟩ := v
  cases shape with
  | instruction site operands i => rfl
  | _ => cases h

end Like

namespace HoldsOnly

variable {P : Slot → Prop} {v : Value}

theorem mapSite (h : v.HoldsOnly P) {f : Site → Site}
    (hf : ∀ site, v.site? = some site → ∀ id, (f site).function = some id →
      P (some (.function id))) : (v.mapSite f).HoldsOnly P := by
  obtain ⟨_, shape, _, _⟩ := v
  cases shape with
  | argument site => exact { h with function := hf site rfl }
  | block site => exact { h with function := hf site rfl }
  | user site => exact { h with function := hf site rfl }
  | instruction site => exact { h with function := hf site rfl }
  | _ => exact h

theorem mapOperands (h : v.HoldsOnly P) {f : List Slot → List Slot}
    (hf : ∀ slot ∈ f v.operands, P slot) : (v.mapOperands f).HoldsOnly P := by
  obtain ⟨_, shape, _, _⟩ := v
  cases shape with
  | user => exact { h with operands := hf }
  | instruction => exact { h with operands := hf }
  | _ => exact h

theorem mapInstructions (h : v.HoldsOnly P) {f : List Slot → List Slot}
    (hf : ∀ slot ∈ f v.instructions, P slot) : (v.mapInstructions f).HoldsOnly P := by
  obtain ⟨_, shape, _, _⟩ := v
  cases shape with
  | block => exact { h with instructions := hf }
  | _ => exact h

theorem mapGlobal (h : v.HoldsOnly P) {f : Global → Global}
    (hinitializer : ∀ g, v.global? = some g → P (f g).initializer)
    (hmodule : ∀ g, v.global? = some g → ∀ m, (f g).module = some m → P (some (.module m))) :
    (v.mapGlobal f).HoldsOnly P := by
  obtain ⟨_, shape, _, _⟩ := v
  cases shape with
  | global g =>
    refine { h with initializer := ?_, module := ?_ }
    · rintro _ ⟨⟩
      exact hinitializer g rfl
    · rintro _ ⟨⟩
      exact hmodule g rfl
  | _ => exact h

theorem mapInstruction (h : v.HoldsOnly P) {f : Instruction → Instruction}
    (hblock : ∀ i, v.instruction? = some i → ∀ b, (f i).block = some b → P (.ofValue b))
    (hloc : ∀ i, v.instruction? = some i → P (f i).loc)
    (hbinding : ∀ i, v.instruction? = some i → ∀ b, (f i).opcode.binding? = some b →
      P b.var ∧ P b.expression) : (v.mapInstruction f).HoldsOnly P := by
  obtain ⟨_, shape, _, _⟩ := v
  cases shape with
  | instruction site operands i =>
    refine { h with
      block := hblock i rfl
      loc := ?_
      var := fun b hb => (hbinding i rfl b hb).1
      expression := fun b hb => (hbinding i rfl b hb).2 }
    rintro _ ⟨⟩
    exact hloc i rfl
  | _ => exact h

end HoldsOnly

end SsaDebugInfo.Value
