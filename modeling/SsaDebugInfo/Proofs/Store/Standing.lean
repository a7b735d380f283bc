import SsaDebugInfo.Proofs.Store.Change

/-!
# Where everything stands

An instruction has a link to its block and a block a list of its instructions; blocks and arguments
have a link to their function, and the function has lists of them. What links and lists say of one
value is its `Standing`, what lists say of one function its `Roster`; those of all values and
functions are the `Arrangement` of a store. The names that values have in functions, and those that
functions have registered, are its `Naming`.

- `Store.Still`: a change that leaves arrangement and naming as they are.
- `Store.Rearranges`: a change that leads to a given arrangement.
- `naming_modify_value`, `naming_modify_function`: the naming after a change of one object.
- `standing_collect` and the like: what a collection leaves of them.
-/

namespace SsaDebugInfo

/-- What a value with a name in a function is. -/
inductive Form
  | argument | block | user | instruction
  deriving DecidableEq

/-- What links and lists say of a value. -/
structure Standing where
  /-- As what the value is in which function. -/
  home : Option (Form × FunctionId) := none
  block : Option ValueId := none
  instructions : List Slot := []

/-- What lists say of a function. -/
structure Roster where
  arguments : List Slot := []
  blocks : List ValueId := []

/-- The names that a function has registered, and the number that its next generated name gets. -/
structure Registry where
  names : List String := []
  nextName : Nat := 1

namespace Value

/-- What a value is, if it has a name in a function. -/
def form? (v : Value) : Option Form :=
  match v.shape with
  | .argument _ => some .argument
  | .block .. => some .block
  | .user .. => some .user
  | .instruction .. => some .instruction
  | _ => none

/-- What links and lists say of a value. -/
def standing (v : Value) : Standing where
  home := v.form?.bind fun form => v.function?.map (form, ·)
  block := v.block?
  instructions := v.instructions

/-- The name that a value has in its function, if it is in one. -/
def seat? (v : Value) : Option (FunctionId × String) :=
  v.site?.bind fun site => site.function.map (·, site.name)

theorem form?_eq_instruction {v : Value} :
    v.form? = some .instruction ↔ ∃ i, v.instruction? = some i := by
  obtain ⟨_, shape, _, _⟩ := v
  cases shape <;> simp [form?, instruction?]

theorem form?_eq_block {v : Value} : v.form? = some .block ↔ v.isBlock = true := by
  obtain ⟨_, shape, _, _⟩ := v
  cases shape <;> simp [form?, isBlock]

theorem form?_eq_some {v : Value} {form : Form} (h : v.form? = some form) :
    ∃ site, v.site? = some site := by
  obtain ⟨_, shape, _, _⟩ := v
  cases shape with
  | argument site => exact ⟨site, rfl⟩
  | block site => exact ⟨site, rfl⟩
  | user site => exact ⟨site, rfl⟩
  | instruction site => exact ⟨site, rfl⟩
  | _ => cases h

/-- A value with a site is an argument, a block or a user. -/
theorem form?_of_site? {v : Value} {site : Site} (h : v.site? = some site) :
    ∃ form, v.form? = some form := by
  obtain ⟨_, shape, _, _⟩ := v
  cases shape with
  | argument => exact ⟨_, rfl⟩
  | block => exact ⟨_, rfl⟩
  | user => exact ⟨_, rfl⟩
  | instruction => exact ⟨_, rfl⟩
  | _ => cases h

/-- Only blocks have instructions in them. -/
theorem instructions_eq_nil {v : Value} (h : v.form? ≠ some .block) : v.instructions = [] := by
  obtain ⟨_, shape, _, _⟩ := v
  cases shape with
  | block => exact absurd rfl h
  | _ => rfl

/-- Only instructions stand in a block. -/
theorem form?_of_block? {v : Value} {b : ValueId} (h : v.block? = some b) :
    v.form? = some .instruction := by
  obtain ⟨i, hi, _⟩ := Option.bind_eq_some_iff.mp h
  exact form?_eq_instruction.mpr ⟨i, hi⟩

section Maps

variable (v : Value)

@[simp] theorem form?_mapSite (f : Site → Site) : (v.mapSite f).form? = v.form? := by
  obtain ⟨_, shape, _, _⟩ := v
  cases shape <;> rfl

@[simp] theorem form?_mapInstructions (f : List Slot → List Slot) :
    (v.mapInstructions f).form? = v.form? := by
  obtain ⟨_, shape, _, _⟩ := v
  cases shape <;> rfl

@[simp] theorem form?_mapInstruction (f : Instruction → Instruction) :
    (v.mapInstruction f).form? = v.form? := by
  obtain ⟨_, shape, _, _⟩ := v
  cases shape <;> rfl

theorem form?_mapGlobal (f : Global → Global) : (v.mapGlobal f).form? = v.form? := by
  obtain ⟨_, shape, _, _⟩ := v
  cases shape <;> rfl

theorem standing_mapOperands (f : List Slot → List Slot) :
    (v.mapOperands f).standing = v.standing := by
  obtain ⟨_, shape, _, _⟩ := v
  cases shape <;> rfl

theorem site?_mapGlobal (f : Global → Global) : (v.mapGlobal f).site? = v.site? := by
  obtain ⟨_, shape, _, _⟩ := v
  cases shape <;> rfl

theorem standing_mapGlobal (f : Global → Global) : (v.mapGlobal f).standing = v.standing := by
  obtain ⟨_, shape, _, _⟩ := v
  cases shape <;> rfl

theorem operands_mapGlobal (f : Global → Global) : (v.mapGlobal f).operands = v.operands := by
  obtain ⟨_, shape, _, _⟩ := v
  cases shape <;> rfl

/-- What an instruction does and where it comes from does not say where it stands. -/
theorem standing_mapInstruction {f : Instruction → Instruction} (h : ∀ i, (f i).block = i.block) :
    (v.mapInstruction f).standing = v.standing := by
  obtain ⟨_, shape, _, _⟩ := v
  cases shape with
  | instruction site operands i =>
    unfold standing
    congr 1
    exact h i
  | _ => rfl

end Maps

variable {v : Value}

theorem standing_mapBlock (h : v.form? = some .instruction) (block : Option ValueId) :
    (v.mapInstruction fun i => { i with block }).standing = { v.standing with block } := by
  obtain ⟨_, shape, _, _⟩ := v
  cases shape with
  | instruction => rfl
  | _ => cases h

theorem standing_mapInstructions (h : v.form? = some .block) (f : List Slot → List Slot) :
    (v.mapInstructions f).standing =
      { v.standing with instructions := f v.standing.instructions } := by
  obtain ⟨_, shape, _, _⟩ := v
  cases shape with
  | block => rfl
  | _ => cases h

/-- The standing of a value in another function. -/
theorem standing_mapSite {form : Form} (hform : v.form? = some form) {site : Site}
    (hsite : v.site? = some site) (f : Site → Site) :
    (v.mapSite f).standing = { v.standing with home := (f site).function.map (form, ·) } := by
  obtain ⟨_, shape, _, _⟩ := v
  cases shape with
  | argument => cases hform; cases hsite; rfl
  | block => cases hform; cases hsite; rfl
  | user => cases hform; cases hsite; rfl
  | instruction => cases hform; cases hsite; rfl
  | _ => cases hform

/-- A name says nothing of where a value stands. -/
theorem standing_rename (v : Value) {f : Site → Site}
    (hf : ∀ site, (f site).function = site.function) : (v.mapSite f).standing = v.standing := by
  cases hform : v.form? with
  | none =>
    obtain ⟨_, shape, _, _⟩ := v
    cases shape with
    | argument => cases hform
    | block => cases hform
    | user => cases hform
    | instruction => cases hform
    | _ => rfl
  | some form =>
    obtain ⟨site, hsite⟩ := form?_eq_some hform
    rw [standing_mapSite hform hsite, hf]
    unfold standing function?
    rw [hform, hsite]
    rfl

theorem mapSite_eq_self {v : Value} (h : v.site? = none) (f : Site → Site) : v.mapSite f = v := by
  obtain ⟨_, shape, _, _⟩ := v
  cases shape with
  | argument => cases h
  | block => cases h
  | user => cases h
  | instruction => cases h
  | _ => rfl

/-- The name of a value in another function, or another name. -/
theorem seat?_mapSite (v : Value) (f : Site → Site) :
    (v.mapSite f).seat? = v.site?.bind fun site => (f site).function.map (·, (f site).name) := by
  obtain ⟨_, shape, _, _⟩ := v
  cases shape <;> rfl

end Value

/-- What lists say of a function. -/
def Function.roster (f : Function) : Roster where
  arguments := f.arguments
  blocks := f.blocks

/-- The names that a function has registered. -/
def Function.registry (f : Function) : Registry where
  names := f.names
  nextName := f.nextName

/-! ## Arrangements -/

/-- What links and lists say of all values and functions. -/
@[ext]
structure Arrangement where
  standing : ValueId → Standing
  roster : FunctionId → Roster

namespace Arrangement

/-- The arrangement where one value stands otherwise. -/
def setStanding (a : Arrangement) (v : ValueId) (standing : Standing) : Arrangement :=
  { a with standing := fun w => if w = v then standing else a.standing w }

/-- The arrangement where one function has another roster. -/
def setRoster (a : Arrangement) (f : FunctionId) (roster : Roster) : Arrangement :=
  { a with roster := fun g => if g = f then roster else a.roster g }

@[simp] theorem setStanding_self (a : Arrangement) (v : ValueId) :
    a.setStanding v (a.standing v) = a := by
  refine Arrangement.ext (funext fun w => ?_) rfl
  show (if w = v then a.standing v else a.standing w) = a.standing w
  split
  · next h => rw [h]
  · rfl

end Arrangement

/-- The names of all values in functions, and those that functions have registered. -/
@[ext]
structure Naming where
  seat : ValueId → Option (FunctionId × String)
  registry : FunctionId → Registry

namespace Naming

/-- The naming where one value has another name, or a name in another function. -/
def setSeat (n : Naming) (v : ValueId) (seat : Option (FunctionId × String)) : Naming :=
  { n with seat := fun w => if w = v then seat else n.seat w }

/-- The naming where one function has registered other names. -/
def setRegistry (n : Naming) (f : FunctionId) (registry : Registry) : Naming :=
  { n with registry := fun g => if g = f then registry else n.registry g }

end Naming

namespace Store

variable {s t u : Store} {kind : Kind}

/-- What links and lists say of a value; nothing of one that is not there. -/
def standing (s : Store) (v : ValueId) : Standing :=
  ((s.get? v).map Value.standing).getD {}

/-- What lists say of a function; nothing of one that is not there. -/
def roster (s : Store) (f : FunctionId) : Roster :=
  ((s.get? f).map Function.roster).getD {}

/-- What links and lists say of all values and functions. -/
def arrangement (s : Store) : Arrangement :=
  ⟨s.standing, s.roster⟩

/-- The name that a value has in its function, if it is there and in one. -/
def seat? (s : Store) (v : ValueId) : Option (FunctionId × String) :=
  (s.get? v).bind Value.seat?

/-- The names that a function has registered; none if it is not there. -/
def registry (s : Store) (f : FunctionId) : Registry :=
  ((s.get? f).map Function.registry).getD {}

/-- The names of all values in functions, and those that functions have registered. -/
def naming (s : Store) : Naming :=
  ⟨s.seat?, s.registry⟩

/-- What a value is, if it is there and has a name in a function. -/
def formOf? (s : Store) (v : ValueId) : Option Form :=
  (s.get? v).bind Value.form?

theorem standing_eq {v : ValueId} {o : Value} (h : s.get? v = some o) :
    s.standing v = o.standing := by
  rw [standing, h]
  rfl

theorem roster_eq {f : FunctionId} {o : Function} (h : s.get? f = some o) :
    s.roster f = o.roster := by
  rw [roster, h]
  rfl

theorem seat?_eq {v : ValueId} {o : Value} (h : s.get? v = some o) : s.seat? v = o.seat? := by
  rw [seat?, h]
  rfl

theorem registry_eq {f : FunctionId} {o : Function} (h : s.get? f = some o) :
    s.registry f = o.registry := by
  rw [registry, h]
  rfl

theorem formOf?_eq {v : ValueId} {o : Value} (h : s.get? v = some o) :
    s.formOf? v = o.form? := by
  rw [formOf?, h]
  rfl

@[simp] theorem block_standing (v : ValueId) : (s.standing v).block = s.blockOf? v := by
  unfold standing blockOf?
  cases s.get? v <;> rfl

@[simp] theorem instructions_standing (v : ValueId) :
    (s.standing v).instructions = s.instructionsOf v := by
  unfold standing instructionsOf
  cases s.get? v <;> rfl

/-- The home of a value is the function that it belongs to. -/
theorem home_standing (v : ValueId) :
    (s.standing v).home = (s.formOf? v).bind fun form => (s.functionOf? v).map (form, ·) := by
  unfold standing formOf? functionOf?
  cases s.get? v <;> rfl

theorem home_eq_some {v : ValueId} {form : Form} {f : FunctionId} :
    (s.standing v).home = some (form, f) ↔ s.formOf? v = some form ∧ s.functionOf? v = some f := by
  rw [home_standing]
  simp [Option.bind_eq_some_iff]

/-- A value in a function is there and has a form. -/
theorem formOf?_of_functionOf? {v : ValueId} {f : FunctionId} (h : s.functionOf? v = some f) :
    ∃ form, s.formOf? v = some form := by
  obtain ⟨o, ho, hfunction⟩ := Option.bind_eq_some_iff.mp h
  obtain ⟨site, hsite, _⟩ := Option.bind_eq_some_iff.mp hfunction
  obtain ⟨form, hform⟩ := Value.form?_of_site? hsite
  exact ⟨form, (formOf?_eq ho).trans hform⟩

theorem map_home_standing (v : ValueId) : (s.standing v).home.map (·.2) = s.functionOf? v := by
  rw [home_standing]
  cases hfunction : s.functionOf? v with
  | none => cases s.formOf? v <;> rfl
  | some f =>
    obtain ⟨form, hform⟩ := formOf?_of_functionOf? hfunction
    rw [hform]
    rfl

theorem has_of_formOf? {v : ValueId} {form : Form} (h : s.formOf? v = some form) :
    s.Has (.value v) := by
  obtain ⟨o, ho, _⟩ := Option.bind_eq_some_iff.mp h
  exact has_value_iff.mpr ⟨o, ho⟩

theorem formOf?_eq_instruction {v : ValueId} :
    s.formOf? v = some .instruction ↔
      ∃ o i, s.get? v = some o ∧ o.instruction? = some i := by
  rw [formOf?, Option.bind_eq_some_iff]
  constructor
  · rintro ⟨o, ho, hform⟩
    obtain ⟨i, hi⟩ := Value.form?_eq_instruction.mp hform
    exact ⟨o, i, ho, hi⟩
  · rintro ⟨o, i, ho, hi⟩
    exact ⟨o, ho, Value.form?_eq_instruction.mpr ⟨i, hi⟩⟩

theorem formOf?_eq_block {v : ValueId} :
    s.formOf? v = some .block ↔ ∃ o, s.get? v = some o ∧ Value.isBlock o = true := by
  rw [formOf?, Option.bind_eq_some_iff]
  exact exists_congr fun o => and_congr_right fun _ => Value.form?_eq_block

/-- Only instructions stand in a block. -/
theorem formOf?_of_blockOf? {v b : ValueId} (h : s.blockOf? v = some b) :
    s.formOf? v = some .instruction := by
  obtain ⟨o, ho, hblock⟩ := Option.bind_eq_some_iff.mp h
  exact (formOf?_eq ho).trans (Value.form?_of_block? hblock)

/-- Only blocks have instructions in them. -/
theorem instructionsOf_eq_nil {v : ValueId} (h : s.formOf? v ≠ some .block) :
    s.instructionsOf v = [] := by
  unfold instructionsOf
  cases ho : s.get? v with
  | none => rfl
  | some o =>
    rw [formOf?_eq ho] at h
    exact Value.instructions_eq_nil h

theorem formOf?_of_mem_instructionsOf {b : ValueId} {slot : Slot} (h : slot ∈ s.instructionsOf b) :
    s.formOf? b = some .block := by
  by_cases hblock : s.formOf? b = some .block
  · exact hblock
  · rw [instructionsOf_eq_nil hblock] at h
    cases h

/-- A function of a value that is there is there. -/
theorem Closed.has_function (hs : s.Closed) {v : ValueId} {f : FunctionId}
    (h : s.functionOf? v = some f) : s.Has (.function f) := by
  obtain ⟨o, ho, hf⟩ := Option.bind_eq_some_iff.mp h
  exact (hs.holdsOnly ho).function f hf _ rfl

/-- A block of a value that is there is there. -/
theorem Closed.has_block (hs : s.Closed) {x b : ValueId} (h : s.blockOf? x = some b) :
    s.Has (.value b) := by
  obtain ⟨o, ho, hb⟩ := Option.bind_eq_some_iff.mp h
  exact (hs.holdsOnly ho).block b hb _ rfl

/-! ## Changes that leave everything where it is -/

/-- Everything stands where it stood, is called what it was and stays what it is; nodes that come
are of some sort. -/
def SameStanding (added : Node → Prop) : ObjectRelation
  | .value, o, p => (p.map Value.standing).getD {} = (o.map Value.standing).getD {} ∧
      p.bind Value.seat? = o.bind Value.seat? ∧
      (∀ form, o.bind Value.form? = some form → p.bind Value.form? = some form) ∧
      ∀ v, o = some v → ∃ w, p = some w ∧ w.site? = v.site?
  | .function, o, p => (p.map Function.roster).getD {} = (o.map Function.roster).getD {} ∧
      (p.map Function.registry).getD {} = (o.map Function.registry).getD {}
  | .node, o, p => ∀ n, p = some n → o = some n ∨ added n
  | _, _, _ => True

variable {added : Node → Prop}

theorem SameStanding.refl (kind : Kind) (o : Option (Object kind)) :
    SameStanding added kind o o := by
  cases kind with
  | value => exact ⟨rfl, rfl, fun _ h => h, fun v hv => ⟨v, hv, rfl⟩⟩
  | function => exact ⟨rfl, rfl⟩
  | node => exact fun _ h => .inl h
  | _ => trivial

theorem SameStanding.trans (kind : Kind) (o p q : Option (Object kind))
    (hop : SameStanding added kind o p) (hpq : SameStanding added kind p q) :
    SameStanding added kind o q := by
  cases kind with
  | value =>
    refine ⟨hpq.1.trans hop.1, hpq.2.1.trans hop.2.1,
      fun form h => hpq.2.2.1 form (hop.2.2.1 form h), fun v hv => ?_⟩
    obtain ⟨w, hw, hsite⟩ := hop.2.2.2 v hv
    obtain ⟨x, hx, hsite'⟩ := hpq.2.2.2 w hw
    exact ⟨x, hx, hsite'.trans hsite⟩
  | function => exact ⟨hpq.1.trans hop.1, hpq.2.trans hop.2⟩
  | node =>
    intro n hn
    rcases hpq n hn with hn | hn
    · exact hop n hn
    · exact .inr hn
  | _ => trivial

/-- A change that leaves arrangement and naming as they are, and adds nodes of some sort only. -/
structure Still (added : Node → Prop) (s t : Store) : Prop extends s.Extends t where
  same : Pointwise (SameStanding added) s t

/-- A change that leaves arrangement and naming as they are, whatever nodes come. -/
abbrev Unmoved : Store → Store → Prop :=
  Still fun _ => True

namespace Still

theorem refl (s : Store) : s.Still added s :=
  ⟨.refl s, fun kind _ => SameStanding.refl kind _⟩

theorem trans (hst : s.Still added t) (htu : t.Still added u) : s.Still added u :=
  ⟨hst.toExtends.trans htu.toExtends, hst.same.trans SameStanding.trans htu.same⟩

theorem of_get?_eq (hget : ∀ {kind : Kind} (id : Id kind), t.get? id = s.get? id)
    (hsize : ∀ kind, (t.table kind).size = (s.table kind).size) : s.Still added t :=
  ⟨.of_get?_eq hget hsize, .of_get?_eq SameStanding.refl hget⟩

theorem modify {id : Id kind} {f : Object kind → Object kind}
    (h : ∀ o, s.get? id = some o → SameStanding added kind (some o) (some (f o))) :
    s.Still added (s.modify id f) :=
  ⟨.modify id f, .modify SameStanding.refl id h⟩

theorem push {object : Object kind} (h : SameStanding added kind none (some object)) :
    s.Still added (s.push kind object) :=
  ⟨.push kind object, .push SameStanding.refl kind h⟩

/-- A value that changes but neither where it stands, nor its name, nor what it is. -/
theorem modify_value {v : ValueId} {f : Value → Value}
    (hstanding : ∀ o, (f o).standing = o.standing) (hsite : ∀ o, (f o).site? = o.site?)
    (hform : ∀ o, (f o).form? = o.form?) : s.Still added (s.modify v f) := by
  refine .modify fun o _ => ⟨hstanding o, ?_, fun _ h => (hform o).trans h, ?_⟩
  · exact congrArg (fun site? : Option Site => site?.bind fun site =>
      site.function.map (·, site.name)) (hsite o)
  · rintro _ ⟨⟩
    exact ⟨f o, rfl, hsite o⟩

/-- A function that changes but not what is in it. -/
theorem modify_function {id : FunctionId} {f : Function → Function}
    (hroster : ∀ o, (f o).roster = o.roster) (hregistry : ∀ o, (f o).registry = o.registry) :
    s.Still added (s.modify id f) :=
  .modify fun o _ => ⟨hroster o, hregistry o⟩

/-- A new value that stands nowhere, and in which nothing stands. -/
theorem push_value {v : Value} (hstanding : v.standing = {}) (hseat : v.seat? = none) :
    s.Still added (s.push .value v) :=
  .push ⟨hstanding, hseat, fun _ h => (nomatch h), fun _ h => nomatch h⟩

theorem arrangement (h : s.Still added t) : t.arrangement = s.arrangement :=
  Arrangement.ext (funext fun v => (h.same .value v).1) (funext fun f => (h.same .function f).1)

theorem naming (h : s.Still added t) : t.naming = s.naming :=
  Naming.ext (funext fun v => (h.same .value v).2.1) (funext fun f => (h.same .function f).2)

/-- A new value is where the value that is not there yet is: nowhere. -/
theorem blockOf? (h : s.Still added t) (v : ValueId) : t.blockOf? v = s.blockOf? v := by
  rw [← block_standing, ← block_standing]
  exact congrArg Standing.block (h.same .value v).1

theorem instructionsOf (h : s.Still added t) (v : ValueId) :
    t.instructionsOf v = s.instructionsOf v := by
  rw [← instructions_standing, ← instructions_standing]
  exact congrArg Standing.instructions (h.same .value v).1

theorem functionOf? (h : s.Still added t) (v : ValueId) : t.functionOf? v = s.functionOf? v := by
  rw [← map_home_standing, ← map_home_standing]
  exact congrArg (fun standing : Standing => standing.home.map (·.2)) (h.same .value v).1

theorem registry (h : s.Still added t) (f : FunctionId) : t.registry f = s.registry f :=
  (h.same .function f).2

theorem formOf? (h : s.Still added t) {v : ValueId} {form : Form} (hv : s.formOf? v = some form) :
    t.formOf? v = some form :=
  (h.same .value v).2.2.1 form hv

/-- What is there keeps its function and its name. -/
theorem site? (h : s.Still added t) {v : ValueId} {o : Value} (hv : s.get? v = some o) :
    ∃ p : Value, t.get? v = some p ∧ p.site? = o.site? :=
  (h.same .value v).2.2.2 o hv

/-- A node that is there afterwards was there before, or is of the sort that comes. -/
theorem node (h : s.Still added t) {n : NodeId} {o : Node} (hn : t.get? n = some o) :
    s.get? n = some o ∨ added o :=
  h.same .node n o hn

end Still

/-! ## Changes of arrangement and naming -/

/-- A change that leads to the given arrangement. Nothing goes, and values stay what they are. -/
structure Rearranges (s : Store) (a : Arrangement) (t : Store) : Prop extends s.Extends t where
  form : ∀ {v form}, s.formOf? v = some form → t.formOf? v = some form
  arrangement : t.arrangement = a

/-- A change of a function is no change of values. -/
@[simp] theorem get?_modify_function (id : FunctionId) (f : Function → Function) (v : ValueId) :
    (s.modify id f).get? v = s.get? v :=
  get?_modify_kind _ _ _ _ (by decide)

/-- A change of a value is no change of functions. -/
@[simp] theorem get?_modify_value (v : ValueId) (f : Value → Value) (id : FunctionId) :
    (s.modify v f).get? id = s.get? id :=
  get?_modify_kind _ _ _ _ (by decide)

theorem formOf?_modify {v : ValueId} {f : Value → Value} (hform : ∀ o, (f o).form? = o.form?)
    (w : ValueId) : (s.modify v f).formOf? w = s.formOf? w :=
  asked_modify (fun o : Option (Object .value) => o.bind Value.form?) (fun o _ => hform o) w

/-- The functions of values stay when names and functions of values do not change. -/
theorem functionOf?_modify {v : ValueId} {f : Value → Value} (hsite : ∀ o, (f o).site? = o.site?)
    (w : ValueId) : (s.modify v f).functionOf? w = s.functionOf? w := by
  refine asked_modify (fun o : Option (Object .value) => o.bind Value.function?) (fun o _ => ?_) w
  show (f o).function? = o.function?
  rw [Value.function?, hsite, Value.function?]

theorem formOf?_modify_function {id : FunctionId} {f : Function → Function} (w : ValueId) :
    (s.modify id f).formOf? w = s.formOf? w := by
  rw [formOf?, get?_modify_function, formOf?]

theorem standing_modify_function {id : FunctionId} {f : Function → Function} (w : ValueId) :
    (s.modify id f).standing w = s.standing w := by
  rw [standing, get?_modify_function, standing]

theorem roster_modify_value {v : ValueId} {f : Value → Value} (g : FunctionId) :
    (s.modify v f).roster g = s.roster g := by
  rw [roster, get?_modify_value, roster]

theorem seat?_modify_function {id : FunctionId} {f : Function → Function} (w : ValueId) :
    (s.modify id f).seat? w = s.seat? w := by
  rw [seat?, get?_modify_function, seat?]

theorem registry_modify_value {v : ValueId} {f : Value → Value} (g : FunctionId) :
    (s.modify v f).registry g = s.registry g := by
  rw [registry, get?_modify_value, registry]

/-- Only the standing of a value that changes is to be looked at. -/
theorem Rearranges.modify_value {v : ValueId} {o : Value} (ho : s.get? v = some o)
    {f : Value → Value} (hform : ∀ o, (f o).form? = o.form?) :
    s.Rearranges (s.arrangement.setStanding v (f o).standing) (s.modify v f) where
  toExtends := .modify v f
  form h := (formOf?_modify hform _).trans h
  arrangement := by
    refine Arrangement.ext (funext fun w => ?_) (funext fun g => roster_modify_value g)
    show Store.standing _ w = if w = v then (f o).standing else s.standing w
    unfold Store.standing
    rw [get?_modify]
    split
    · next h => rw [h, ho]; rfl
    · rfl

/-- Only the roster of a function that changes is to be looked at. -/
theorem Rearranges.modify_function {id : FunctionId} {o : Function} (ho : s.get? id = some o)
    {f : Function → Function} :
    s.Rearranges (s.arrangement.setRoster id (f o).roster) (s.modify id f) where
  toExtends := .modify id f
  form h := (formOf?_modify_function _).trans h
  arrangement := by
    refine Arrangement.ext (funext fun w => standing_modify_function w) (funext fun g => ?_)
    show Store.roster _ g = if g = id then (f o).roster else s.roster g
    unfold Store.roster
    rw [get?_modify]
    split
    · next h => rw [h, ho]; rfl
    · rfl

/-- Only the name of a value that changes is to be looked at. -/
theorem naming_modify_value {v : ValueId} {o : Value} (ho : s.get? v = some o)
    (f : Value → Value) : (s.modify v f).naming = s.naming.setSeat v (f o).seat? := by
  refine Naming.ext (funext fun w => ?_) (funext fun g => registry_modify_value g)
  show Store.seat? _ w = if w = v then (f o).seat? else s.seat? w
  unfold Store.seat?
  rw [get?_modify]
  split
  · next h => rw [h, ho]; rfl
  · rfl

/-- Only the names of a function that changes are to be looked at. -/
theorem naming_modify_function {id : FunctionId} {o : Function} (ho : s.get? id = some o)
    (f : Function → Function) :
    (s.modify id f).naming = s.naming.setRegistry id (f o).registry := by
  refine Naming.ext (funext fun w => seat?_modify_function w) (funext fun g => ?_)
  show Store.registry _ g = if g = id then (f o).registry else s.registry g
  unfold Store.registry
  rw [get?_modify]
  split
  · next h => rw [h, ho]; rfl
  · rfl

/-! ## Collection -/

section Collect

variable {roots : List Slot}

theorem standing_collect (v : ValueId) :
    (s.collect roots).standing v = if s.Live roots (.value v) then s.standing v else {} :=
  asked_collect (fun o : Option (Object .value) => (o.map Value.standing).getD {}) (by decide) v

theorem roster_collect (f : FunctionId) :
    (s.collect roots).roster f = if s.Live roots (.function f) then s.roster f else {} :=
  asked_collect (fun o : Option (Object .function) => (o.map Function.roster).getD {})
    (by decide) f

theorem seat?_collect (v : ValueId) :
    (s.collect roots).seat? v = if s.Live roots (.value v) then s.seat? v else none :=
  asked_collect (fun o : Option (Object .value) => o.bind Value.seat?) (by decide) v

theorem registry_collect (f : FunctionId) :
    (s.collect roots).registry f = if s.Live roots (.function f) then s.registry f else {} :=
  asked_collect (fun o : Option (Object .function) => (o.map Function.registry).getD {})
    (by decide) f

theorem live_of_blockOf? {x b : ValueId} (hlive : s.Live roots (.value x))
    (h : s.blockOf? x = some b) : s.Live roots (.value b) := by
  obtain ⟨o, ho, hb⟩ := Option.bind_eq_some_iff.mp h
  exact (live_holdsOnly ho hlive).block b hb _ rfl

theorem live_of_functionOf? {v : ValueId} {f : FunctionId} (hlive : s.Live roots (.value v))
    (h : s.functionOf? v = some f) : s.Live roots (.function f) := by
  obtain ⟨o, ho, hf⟩ := Option.bind_eq_some_iff.mp h
  exact (live_holdsOnly ho hlive).function f hf _ rfl

end Collect

end Store

end SsaDebugInfo
