import Mathlib.Logic.Relation
import SsaDebugInfo.Modules
import SsaDebugInfo.Proofs.Act.Ends
import SsaDebugInfo.Proofs.Store.Standing

/-!
# What actions touch

Wherever an action starts and however it ends, it changes the store by a few sorts of single
changes: an object keeps its core and changes otherwise, an object comes that has no part in
anything yet, a module remembers its index, or the metadata that indexes are made from changes. What
none of them does, no action does.

- `Touch`: the single changes, as far as a `Scope` admits them.
- `Touches`: one after another; `Touches.preserves` is how they are reasoned about.
- `Touches.persists`: values keep their cores, and handles stay what they are.
- `Touches.still`: without placements everything stands where it stood.
-/

namespace SsaDebugInfo

/-! ## What stays -/

/-- What an instruction does, whatever a debug record says. -/
def Opcode.core : Opcode → Opcode
  | debugValue binding => debugValue { binding with var := none, expression := none }
  | opcode => opcode

/-- What is left of a value without its name, its place, its operands and its users: what it was
made as. -/
def Value.core (v : Value) : Value where
  type := v.type
  shape := match v.shape with
    | .global g => .global { g with name := "", module := none }
    | .argument _ => .argument { name := "" }
    | .block _ _ => .block { name := "" } []
    | .user _ _ => .user { name := "" } []
    | .instruction _ _ i => .instruction { name := "" } [] { opcode := i.opcode.core }
    | shape => shape

/-- Gives another name to a node that has one. -/
def Node.rename (name : String) : Node → Node
  | subprogram _ source line parent linkage => subprogram name source line parent linkage
  | localVariable _ parent source line argument => localVariable name parent source line argument
  | globalVariable _ parent source line storage => globalVariable name parent source line storage
  | n => n

/-- What is left of a node without its name. -/
def Node.core (n : Node) : Node :=
  n.rename ""

namespace Value

variable (v : Value)

@[simp] theorem core_mapSite (f : Site → Site) : (v.mapSite f).core = v.core := by
  obtain ⟨_, shape, _, _⟩ := v
  cases shape <;> rfl

@[simp] theorem core_mapOperands (f : List Slot → List Slot) :
    (v.mapOperands f).core = v.core := by
  obtain ⟨_, shape, _, _⟩ := v
  cases shape <;> rfl

@[simp] theorem core_mapInstructions (f : List Slot → List Slot) :
    (v.mapInstructions f).core = v.core := by
  obtain ⟨_, shape, _, _⟩ := v
  cases shape <;> rfl

theorem core_mapInstruction {f : Instruction → Instruction}
    (h : ∀ i, (f i).opcode.core = i.opcode.core) : (v.mapInstruction f).core = v.core := by
  obtain ⟨_, shape, _, _⟩ := v
  cases shape with
  | instruction site operands i =>
    unfold core
    dsimp only [mapInstruction]
    rw [h i]
  | _ => rfl

theorem core_mapGlobal {f : Global → Global} (h : ∀ g, (f g).initializer = g.initializer) :
    (v.mapGlobal f).core = v.core := by
  obtain ⟨_, shape, _, _⟩ := v
  cases shape with
  | global g =>
    unfold core
    dsimp only [mapGlobal]
    rw [h g]
  | _ => rfl

@[simp] theorem form?_core : v.core.form? = v.form? := by
  obtain ⟨_, shape, _, _⟩ := v
  cases shape <;> rfl

@[simp] theorem isConstant_core : v.core.isConstant = v.isConstant := by
  obtain ⟨_, shape, _, _⟩ := v
  cases shape <;> rfl

theorem isConstant_of_core {v w : Value} (h : w.core = v.core) : w.isConstant = v.isConstant := by
  rw [← w.isConstant_core, h, v.isConstant_core]

@[simp] theorem isInsertElement_core : v.core.isInsertElement = v.isInsertElement := by
  obtain ⟨_, shape, _, _⟩ := v
  cases shape with
  | instruction site operands i =>
    obtain ⟨opcode, _, _⟩ := i
    cases opcode <;> rfl
  | _ => rfl

@[simp] theorem wrapped?_core : v.core.wrapped? = v.wrapped? := by
  obtain ⟨_, shape, _, _⟩ := v
  cases shape <;> rfl

end Value

namespace Node

@[simp] theorem core_rename (n : Node) (name : String) : (n.rename name).core = n.core := by
  cases n <;> rfl

@[simp] theorem handleOf?_core (n : Node) : n.core.handleOf? = n.handleOf? := by
  cases n <;> rfl

/-- Every handle is its own core. -/
theorem core_eq_handle {m : Node} {v : ValueId} :
    (m.core = .constantHandle v ↔ m = .constantHandle v) ∧
      (m.core = .localHandle v ↔ m = .localHandle v) := by
  cases m <;> simp [core, rename]

end Node

/-! ## What may change -/

/-- A change of the metadata that indexes are made from. -/
inductive Description
  | addUnit (module : ModuleId) (unit : Slot)
  | addFunction (module : ModuleId) (function : FunctionId)
  | extendUnit (unit : NodeId) (globals subprograms : List Slot)
  | setSubprogram (function : FunctionId) (subprogram : Slot)

/-- Adds descriptors to the lists of a compile unit. -/
def Node.extend (globals subprograms : List Slot) : Node → Node
  | unit source producer gs sps => unit source producer (gs ++ globals) (sps ++ subprograms)
  | n => n

@[simp] theorem Node.handleOf?_extend (n : Node) (globals subprograms : List Slot) :
    (n.extend globals subprograms).handleOf? = n.handleOf? := by
  cases n <;> rfl

/-- What a change of metadata makes of a store. -/
def Description.apply (s : Store) : Description → Store
  | addUnit module unit => s.modify module fun m => { m with units := m.units ++ [unit] }
  | addFunction module function =>
    s.modify module fun m => { m with functions := m.functions ++ [function] }
  | extendUnit unit globals subprograms => s.modify unit (·.extend globals subprograms)
  | setSubprogram function subprogram => s.modify function fun f => { f with subprogram }

/-- What actions may do. -/
structure Scope where
  /-- Whether values may be placed, taken out and renamed. -/
  places : Bool := false
  /-- Whether insertions may get other operands. -/
  rebuilds : Bool := true
  /-- The nodes that may come, and those that a node may become. -/
  nodes : Node → Prop
  /-- The changes of what indexes are made from. Where there may be some, no index is remembered. -/
  describes : Description → Prop := fun _ => False

/-- No placements, no other operands of insertions, no changes of what indexes are made from. -/
def Scope.quiet : Scope :=
  { rebuilds := false, nodes := fun _ => True }

variable (c : Scope)

/-- A value keeps its core, its place unless values may be placed, and as an insertion its operands
unless these may be exchanged. -/
structure Value.Changes (v w : Value) : Prop where
  core : w.core = v.core
  placed : c.places = false → w.standing = v.standing ∧ w.site? = v.site?
  built : c.rebuilds = false → v.isInsertElement = true → w.operands = v.operands

/-- A function keeps what it was made as, and what is in it unless values may be placed. -/
structure Function.Changes (f g : Function) : Prop where
  result : g.result = f.result
  parameters : g.parameters = f.parameters
  subprogram : g.subprogram = f.subprogram
  placed : c.places = false → g.roster = f.roster ∧ g.registry = f.registry

/-- A module keeps its context, its layout, and what its index is made from; its state may come, and
its index go. -/
structure Module.Changes (m n : Module) : Prop where
  context : n.context = m.context
  layout : n.layout = m.layout
  functions : n.functions = m.functions
  units : n.units = m.units
  state : n.state = m.state ∨ n.state = some {}

/-- A layout remembers the size that it is asked for. -/
def Layout.Changes (l l' : Layout) : Prop :=
  ∃ type, l' = (l.sizeInBits type).2

/-- How an object may change. -/
def Kind.Changes : (kind : Kind) → Object kind → Object kind → Prop
  | .value, v, w => v.Changes c w
  | .node, m, n => n.core = m.core ∧ c.nodes n
  | .function, f, g => f.Changes c g
  | .module, m, n => m.Changes n
  | .layout, l, l' => l.Changes l'
  | _, _, _ => True

/-- What a new object has no part in. -/
def Kind.Starts : (kind : Kind) → Object kind → Prop
  | .value, v => v.standing = {} ∧ v.seat? = none ∧ v.operands = []
  | .node, n => n.handleOf? = none ∧ c.nodes n
  | .function, f => f.roster = {} ∧ f.registry = {}
  | .module, m => m.functions = [] ∧ m.units = [] ∧ m.state = none
  | .layout, l => l.cache = []
  | _, _ => True

/-- The handle that a value gets. -/
def Value.handle (v : Value) (id : ValueId) : Node :=
  if v.isConstant then .constantHandle id else .localHandle id

@[simp] theorem Value.handleOf?_handle (v : Value) (id : ValueId) :
    (v.handle id).handleOf? = some id := by
  unfold handle
  split
  · rfl
  · rfl

/-- A single change of the store. -/
inductive Touch (s : Store) : Store → Prop
  | annotate (labelTypes : Nat) (journal : List Entry) : Touch s { s with labelTypes, journal }
  | change {kind : Kind} (id : Id kind) {f : Object kind → Object kind}
      (h : ∀ o, kind.Changes c o (f o)) : Touch s (s.modify id f)
  | create {kind : Kind} {object : Object kind} (h : kind.Starts c object) :
      Touch s (s.push kind object)
  | addHandle {id : ValueId} {v : Value} (hv : s.get? id = some v) (h : c.nodes (v.handle id)) :
      Touch s (s.push .node (v.handle id))
  | index (module : ModuleId) (h : ∀ d, ¬ c.describes d) :
      Touch s (s.modify module fun m =>
        { m with state := some { index := some ((Index.ofModule s module).run.run {}).2 } })
  | describe (d : Description) (h : c.describes d) (hnodes : ∀ n, c.nodes n) :
      Touch s (d.apply s)

/-- One single change after another. -/
abbrev Touches : Store → Store → Prop :=
  Relation.ReflTransGen (Touch c)

variable {c : Scope} {s t : Store}

/-- What every single change preserves is preserved by one after another. -/
theorem Touches.preserves {P : Store → Prop} (h : Touches c s t)
    (htouch : ∀ {s t}, P s → Touch c s t → P t) (hs : P s) : P t := by
  induction h with
  | refl => exact hs
  | tail _ hlast ih => exact htouch ih hlast

open Store

/-- A node that is there afterwards was there before, or is one that may come. -/
theorem Touch.node (h : Touch c s t) {n : NodeId} {o : Node} (hn : t.get? n = some o) :
    s.get? n = some o ∨ c.nodes o := by
  cases h with
  | annotate => exact .inl hn
  | @change kind id f hf =>
    cases kind with
    | node =>
      rw [get?_modify] at hn
      split at hn
      · obtain ⟨m, _, rfl⟩ := Option.map_eq_some_iff.mp hn
        exact .inr (hf m).2
      · exact .inl hn
    | _ => exact .inl hn
  | @create kind object hnew =>
    cases kind with
    | node =>
      rw [get?_push] at hn
      split at hn
      · cases hn
        exact .inr hnew.2
      · exact .inl hn
    | _ => exact .inl hn
  | addHandle _ hnode =>
    rw [get?_push] at hn
    split at hn
    · cases hn
      exact .inr hnode
    · exact .inl hn
  | index => exact .inl hn
  | describe d _ hnodes => exact .inr (hnodes o)

/-- A layout that is there afterwards remembers nothing, or was there before and may have been asked
for a size. -/
theorem Touch.layout (h : Touch c s t) {id : LayoutId} {l : Layout} (hl : t.get? id = some l) :
    l.cache = [] ∨ ∃ l₀, s.get? id = some l₀ ∧ (l = l₀ ∨ l₀.Changes l) := by
  have hkept : s.get? id = some l → l.cache = [] ∨ ∃ l₀, s.get? id = some l₀ ∧
      (l = l₀ ∨ l₀.Changes l) := fun hbefore => .inr ⟨l, hbefore, .inl rfl⟩
  cases h with
  | annotate => exact hkept hl
  | @change kind id' f hf =>
    cases kind with
    | layout =>
      rw [get?_modify] at hl
      split at hl
      · obtain ⟨l₀, hbefore, rfl⟩ := Option.map_eq_some_iff.mp hl
        exact .inr ⟨l₀, hbefore, .inr (hf l₀)⟩
      · exact hkept hl
    | _ => exact hkept hl
  | @create kind object hnew =>
    cases kind with
    | layout =>
      rw [get?_push] at hl
      split at hl
      · cases hl
        exact .inl hnew
      · exact hkept hl
    | _ => exact hkept hl
  | addHandle => exact hkept hl
  | index => exact hkept hl
  | describe d => cases d <;> exact hkept hl

/-! ## What an identity stands for -/

/-- Objects only come. -/
theorem Touch.extends (h : Touch c s t) : s.Extends t := by
  cases h with
  | annotate =>
    refine .of_get?_eq (fun {kind} _ => ?_) fun kind => ?_
    · cases kind <;> rfl
    · cases kind <;> rfl
  | change id => exact .modify id _
  | create => exact .push _ _
  | addHandle => exact .push _ _
  | index m => exact .modify m _
  | describe d =>
    cases d with
    | addUnit m => exact .modify m _
    | addFunction m => exact .modify m _
    | extendUnit unit => exact .modify unit _
    | setSubprogram function => exact .modify function _

/-- A value keeps its core, a handle stays what it is, and no other node becomes one. -/
def Kind.Persists : (kind : Kind) → Object kind → Object kind → Prop
  | .value, v, w => w.core = v.core
  | .node, m, n => n = m ∨ m.handleOf? = none ∧ n.handleOf? = none
  | _, _, _ => True

theorem Kind.Persists.refl (kind : Kind) (o : Object kind) : kind.Persists o o := by
  cases kind with
  | value => exact rfl
  | node => exact .inl rfl
  | _ => trivial

theorem Kind.Persists.trans {kind : Kind} {o p q : Object kind} (hop : kind.Persists o p)
    (hpq : kind.Persists p q) : kind.Persists o q := by
  cases kind with
  | value => exact Eq.trans hpq hop
  | node =>
    rcases hop with rfl | ⟨ho, hp⟩
    · exact hpq
    · rcases hpq with rfl | ⟨_, hq⟩
      · exact .inr ⟨ho, hp⟩
      · exact .inr ⟨ho, hq⟩
  | _ => trivial

/-- A node with the core of a handle is that handle. -/
theorem Node.persists_of_core {m n : Node} (h : n.core = m.core) : Kind.node.Persists m n := by
  cases m with
  | constantHandle v => exact .inl (Node.core_eq_handle.1.mp h)
  | localHandle v => exact .inl (Node.core_eq_handle.2.mp h)
  | _ => exact .inr ⟨rfl, by rw [← n.handleOf?_core, h]; rfl⟩

theorem Kind.Changes.persists {kind : Kind} {o p : Object kind} (h : kind.Changes c o p) :
    kind.Persists o p := by
  cases kind with
  | value => exact h.core
  | node => exact Node.persists_of_core h.1
  | _ => trivial

theorem persists_modify {kind : Kind} {id : Id kind} {f : Object kind → Object kind}
    (h : ∀ o, kind.Persists o (f o)) {k : Kind} {i : Id k} {o p : Object k}
    (ho : s.get? i = some o) (hp : (s.modify id f).get? i = some p) : k.Persists o p := by
  refine forall_get?_modify (P := fun k i p => ∀ o, s.get? i = some o → k.Persists o p)
    (fun o ho o' ho' => ?_) (fun k i o ho o' ho' => ?_) k i p hp o ho
  · obtain rfl := Option.some_inj.mp (ho.symm.trans ho')
    exact h o
  · obtain rfl := Option.some_inj.mp (ho.symm.trans ho')
    exact .refl k o

theorem persists_push {kind : Kind} {object : Object kind} {k : Kind} {i : Id k} {o p : Object k}
    (ho : s.get? i = some o) (hp : (s.push kind object).get? i = some p) : k.Persists o p := by
  refine forall_get?_push (P := fun k i p => ∀ o, s.get? i = some o → k.Persists o p)
    (fun o ho => ?_) (fun k i o ho o' ho' => ?_) k i p hp o ho
  · rw [get?_nextId] at ho
    cases ho
  · obtain rfl := Option.some_inj.mp (ho.symm.trans ho')
    exact .refl k o

/-- What is there stays, a value with its core and a handle as it is. -/
theorem Touch.persists (h : Touch c s t) {kind : Kind} {id : Id kind} {o : Object kind}
    (ho : s.get? id = some o) : ∃ p, t.get? id = some p ∧ kind.Persists o p := by
  obtain ⟨p, hp⟩ := Option.isSome_iff_exists.mp (h.extends.kept id (by rw [ho]; rfl))
  refine ⟨p, hp, ?_⟩
  have hmodule : ∀ (f : Module → Module) (m : Module), Kind.module.Persists m (f m) :=
    fun _ _ => trivial
  cases h with
  | annotate labelTypes journal =>
    have hget : ({ s with labelTypes, journal } : Store).get? id = s.get? id := by
      cases kind <;> rfl
    obtain rfl := Option.some_inj.mp (ho.symm.trans (hget.symm.trans hp))
    exact .refl kind o
  | change _ hf => exact persists_modify (fun o => (hf o).persists) ho hp
  | create => exact persists_push ho hp
  | addHandle => exact persists_push ho hp
  | index => exact persists_modify (hmodule _) ho hp
  | describe d =>
    cases d with
    | addUnit => exact persists_modify (hmodule _) ho hp
    | addFunction => exact persists_modify (hmodule _) ho hp
    | extendUnit unit globals subprograms =>
      refine persists_modify (fun n => ?_) ho hp
      cases n with
      | unit => exact .inr ⟨rfl, rfl⟩
      | _ => exact .inl rfl
    | setSubprogram =>
      have hfunction : ∀ (f : Function → Function) (g : Function),
          Kind.function.Persists g (f g) := fun _ _ => trivial
      exact persists_modify (hfunction _) ho hp

theorem Touches.persists (h : Touches c s t) {kind : Kind} {id : Id kind} {o : Object kind}
    (ho : s.get? id = some o) : ∃ p, t.get? id = some p ∧ kind.Persists o p :=
  h.preserves (P := fun t => ∃ p, t.get? id = some p ∧ kind.Persists o p)
    (fun ⟨_, hp, hop⟩ htouch =>
      have ⟨q, hq, hpq⟩ := htouch.persists hp
      ⟨q, hq, hop.trans hpq⟩) ⟨o, ho, .refl kind o⟩

/-- Where only handles may come, nodes stay what they are. -/
theorem Touches.get?_node (hnodes : ∀ m, c.nodes m → m.handleOf?.isSome = true)
    (h : Touches c s t) {n : NodeId} {o : Node} (ho : s.get? n = some o) : t.get? n = some o := by
  refine h.preserves (P := fun t => t.get? n = some o) (fun {u v} hu htouch => ?_) ho
  obtain ⟨p, hp, hsame⟩ := htouch.persists hu
  rcases hsame with rfl | ⟨_, hplain⟩
  · exact hp
  · -- what a node that is no handle becomes is no handle, so that it has not just come
    rcases htouch.node hp with hbefore | hcome
    · rwa [Option.some_inj.mp (hu.symm.trans hbefore)]
    · have hhandle := hnodes p hcome
      rw [hplain] at hhandle
      cases hhandle

/-! ## Changes that place nothing -/

theorem Value.Changes.form? {v w : Value} (h : v.Changes c w) : w.form? = v.form? := by
  rw [← w.form?_core, h.core, v.form?_core]

theorem Touch.still (h : Touch c s t) (hplaces : c.places = false) : Still c.nodes s t := by
  cases h with
  | annotate labelTypes journal =>
    refine .of_get?_eq (fun {kind} _ => ?_) fun kind => ?_
    · cases kind <;> rfl
    · cases kind <;> rfl
  | @change kind id f hf =>
    cases kind with
    | value =>
      exact .modify_value (fun o => ((hf o).placed hplaces).1) (fun o => ((hf o).placed hplaces).2)
        fun o => (hf o).form?
    | node =>
      refine .modify fun o _ n hn => ?_
      cases hn
      exact .inr (hf o).2
    | function =>
      exact .modify_function (fun o => ((hf o).placed hplaces).1)
        fun o => ((hf o).placed hplaces).2
    | _ => exact .modify fun _ _ => trivial
  | @create kind object hnew =>
    cases kind with
    | value => exact .push_value hnew.1 hnew.2.1
    | node =>
      refine .push fun n hn => ?_
      cases hn
      exact .inr hnew.2
    | function =>
      refine .push ⟨?_, ?_⟩
      · exact hnew.1
      · exact hnew.2
    | _ => exact .push trivial
  -- a handle is a node, so that it has to be one that may be added
  | addHandle hv hnode =>
    refine .push fun n hn => ?_
    cases hn
    exact .inr hnode
  | index => exact .modify fun _ _ => trivial
  | describe d _ hnodes =>
    cases d with
    | addUnit => exact .modify fun _ _ => trivial
    | addFunction => exact .modify fun _ _ => trivial
    | extendUnit => exact .modify fun _ _ n _ => .inr (hnodes n)
    | setSubprogram => exact .modify_function (fun _ => rfl) fun _ => rfl

instance {added : Node → Prop} : IsPreorder Store (Still added) where
  refl := .refl
  trans _ _ _ := .trans

/-- Where nothing may be placed, everything stands where it stood. -/
theorem Touches.still (h : Touches c s t) (hplaces : c.places = false) : Still c.nodes s t :=
  h.preserves (P := Still c.nodes s) (fun ht htouch => ht.trans (htouch.still hplaces)) (.refl s)

end SsaDebugInfo
