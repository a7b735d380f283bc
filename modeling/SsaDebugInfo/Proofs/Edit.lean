import SsaDebugInfo.Proofs.Ir.Placement
import SsaDebugInfo.Proofs.Store.Sound

/-!
# Edits

All that operations do to the store is done by a few kinds of edits, which are admissible where
they find what they work on. An operation may fault between two edits, and an edit may fault itself;
what it did before stays.

A `Discipline` restricts how edits treat operands: that all operands are values, or that the
operands of debug records are what the debug operations make them.

- `Edit.act`, `Edit.Admissible`: what an edit does, and when it may be made.
- `Edit.extends_sound`: an admissible edit loses no object and keeps a store sound.
- `Edit.sameTables`, `Edits.moreTables`: which edits leave handles and wrappers alone, and that none
  loses any.
- `Edits.induction`: what every admissible edit preserves holds after all edits.
- `Conduct.edits`: how operations behave, as one edit after another.
-/

namespace SsaDebugInfo

/-- What is asked of the operands that are handed over; by default nothing. -/
structure Discipline where
  /-- All operands handed over are values. -/
  values : Bool := false
  /-- Debug records are made, and their operands changed, by the debug operations alone. -/
  records : Bool := false
  /-- Debug records keep what they hold. -/
  steady : Bool := false

/-! ## Kinds of edits -/

/-- A way to place an argument, a block or an instruction, or to take one out. -/
inductive Placement
  | setArguments (function : FunctionId) (arguments : List Slot)
  | addBlock (function : FunctionId) (block : ValueId)
  | append (block insn : ValueId)
  | insertBefore (block insn : ValueId) (before : Slot)
  | insertAfter (block insn : ValueId) (after : Slot)
  | remove (block : ValueId) (slot : Slot)
  | setInstructions (block : ValueId) (insns : List Slot)

namespace Placement

/-- What a placement does. -/
def act : Placement → Act Unit
  | setArguments function arguments => SsaDebugInfo.setArguments function arguments
  | addBlock function block => SsaDebugInfo.addBlock function block
  | append block insn => appendTo block insn
  | insertBefore block insn before => SsaDebugInfo.insertBefore block insn before
  | insertAfter block insn after => SsaDebugInfo.insertAfter block insn after
  | remove block slot => removeFrom block slot
  | setInstructions block insns => SsaDebugInfo.setInstructions block insns

/-- What must be there for a placement. -/
def needs : Placement → List Slot
  | setArguments function arguments => some (.function function) :: arguments
  | addBlock function block => [some (.function function), .ofValue block]
  | append block insn | insertBefore block insn _ | insertAfter block insn _ =>
    [.ofValue block, .ofValue insn]
  | remove _ _ => []
  | setInstructions block insns => .ofValue block :: insns

end Placement

/-- An edit of the store. -/
inductive Edit
  /-- Makes label types, or writes into the journal. -/
  | annotate (labelTypes : Nat) (journal : List Entry)
  /-- Makes an object that has no part in anything yet. -/
  | create (kind : Kind) (object : Object kind)
  /-- Changes an object, but not how it hangs together with others. -/
  | revise (kind : Kind) (id : Id kind) (f : Object kind → Object kind)
  | place (placement : Placement)
  | setOperands (user : ValueId) (operands : List Slot)
  | setOperand (user : ValueId) (index : Int) (operand : Slot)
  | pushOperand (user : ValueId) (operand : Slot)
  /-- Makes the handle of a value. -/
  | addHandle (context : ContextId) (value : ValueId) (handle : Node)
  /-- Makes the wrapper of a node. -/
  | addWrapper (context : ContextId) (node : NodeId)

/-- What an edit does. -/
def Edit.act : Edit → Act Unit
  | annotate labelTypes journal => modify fun s => { s with labelTypes, journal }
  | create kind object => modify fun s => s.push kind object
  | revise _ id f => update id f
  | place placement => placement.act
  | setOperands user operands => SsaDebugInfo.setOperands user operands
  | setOperand user index operand => SsaDebugInfo.setOperand user index operand
  | pushOperand user operand => SsaDebugInfo.pushOperand user operand
  | addHandle context value handle => modify fun s => s.addHandle context value handle
  | addWrapper context node => modify fun s => s.addWrapper context node

/-! ## Admissible edits -/

/-- A value that has no part in anything: nothing uses it, and it uses nothing and is nowhere. -/
structure Value.Blank (v : Value) : Prop where
  uses : v.uses = []
  operands : v.operands = []
  instructions : v.instructions = []
  wrapped : v.wrapped? = none
  function : v.function? = none
  block : v.block? = none

/-- A function that nothing is in, and that is nowhere. -/
structure Function.Blank (f : Function) : Prop where
  names : f.names = []
  nextName : f.nextName = 1
  arguments : f.arguments = []
  blocks : f.blocks = []
  module : f.module = none

/-- An object that has no part in anything. -/
def Kind.Blank : (kind : Kind) → Object kind → Prop
  | .value, v => v.Blank
  | .node, n => n.handleOf? = none
  | .function, f => f.Blank
  | .context, c => c.handles = [] ∧ c.wrappers = []
  | _, _ => True

/-- How a value hangs together with others is the same; its context may get fixed. -/
structure Value.Revises (v w : Value) : Prop where
  type : w.type = v.type
  uses : w.uses = v.uses
  operands : w.operands = v.operands
  instructions : w.instructions = v.instructions
  wrapped : w.wrapped? = v.wrapped?
  isDebugValue : w.isDebugValue = v.isDebugValue
  function : w.function? = v.function?
  block : w.block? = v.block?
  context : ∀ c, v.context = some c → w.context = some c

/-- What is in a function, and the names that are, are the same. -/
structure Function.Revises (f g : Function) : Prop where
  names : g.names = f.names
  nextName : g.nextName = f.nextName
  arguments : g.arguments = f.arguments
  blocks : g.blocks = f.blocks
  context : ∀ c, f.context = some c → g.context = some c

/-- An object changes, but not how it hangs together with others. -/
def Kind.Revises : (kind : Kind) → Object kind → Object kind → Prop
  | .value, v, w => v.Revises w
  | .node, m, n => n.handleOf? = m.handleOf?
  | .function, f, g => f.Revises g
  | .context, a, b => b = a
  | _, _, _ => True

/-- The operands are there, and are such as the discipline asks for of a debug record or of another
user. -/
structure Discipline.Fits (d : Discipline) (s : Store) (record : Bool) (operands : List Slot) :
    Prop where
  held : ∀ o ∈ operands, s.HasIn o
  value : d.values = true → ∀ o ∈ operands, ∃ v, o = Slot.ofValue v
  tied : d.records = true → record = true →
    operands = [] ∨ ∃ w, operands = [.ofValue w] ∧ s.Tied w

/-- The operands of a user may change: a record has to keep what it holds, where the discipline asks
for it. -/
def Discipline.Frees (d : Discipline) (s : Store) (user : ValueId) : Prop :=
  d.steady = true → s.isRecord user = true → s.operandsOf user = []

/-- Whether an edit may be made. -/
def Edit.Admissible (d : Discipline) (s : Store) : Edit → Prop
  | annotate _ _ => True
  | create kind object => kind.Blank object ∧ ∀ slot ∈ kind.slots object, s.HasIn slot
  | revise kind id f => ∀ o, s.get? id = some o →
      kind.Revises o (f o) ∧ ∀ slot ∈ kind.slots (f o), s.HasIn slot
  | place placement => ∀ slot ∈ placement.needs, s.HasIn slot
  | setOperands user operands =>
    s.IsUser user ∧ d.Fits s (s.isRecord user) operands ∧ d.Frees s user
  | setOperand user _ operand =>
    s.IsUser user ∧ d.Fits s (s.isRecord user) [operand] ∧ d.Frees s user
  | pushOperand user operand =>
    s.IsUser user ∧ d.Fits s (s.isRecord user) [operand] ∧ s.isRecord user = false
  | addHandle context value handle =>
    s.Has (.value value) ∧ s.Has (.context context) ∧ s.contextAt value = some context ∧
      value ∉ (s.handlesIn context).map Prod.fst ∧ handle.handleOf? = some value
  | addWrapper context node =>
    s.Has (.context context) ∧ s.Has (.node node) ∧ node ∉ (s.wrappersIn context).map Prod.fst

open Act Store

variable {d : Discipline} {s t u : Store}

/-- A steady discipline has nothing against a user that is no record. -/
theorem Discipline.Frees.of_not_record {user : ValueId}
    (h : d.steady = true → s.isRecord user = false) : d.Frees s user := by
  intro hd hrecord
  rw [h hd] at hrecord
  cases hrecord

/-- No operands fit every user. -/
theorem Discipline.fits_nil {record : Bool} : d.Fits s record [] where
  held _ h := nomatch h
  value _ _ h := nomatch h
  tied _ _ := .inl rfl

/-- What fits keeps fitting while no handle, wrapper or entry goes. -/
theorem Discipline.Fits.of_more (hs : s.Interned) (ht : s.MoreTables t) {record : Bool}
    {operands : List Slot} (h : d.Fits s record operands) : d.Fits t record operands where
  held o ho := ht.hasIn (h.held o ho)
  value := h.value
  tied hd hrecord := by
    rcases h.tied hd hrecord with hnone | ⟨w, hw, htied⟩
    · exact .inl hnone
    · exact .inr ⟨w, hw, htied.of_more hs ht⟩

/-- A placement moves things, if all that it needs is there. -/
theorem Placement.keeps_act (placement : Placement) (hs : s.Closed)
    (h : ∀ slot ∈ placement.needs, s.HasIn slot) :
    placement.act.Keeps (.moves fun _ => true) s fun _ _ => True := by
  cases placement with
  | setArguments function arguments =>
    obtain ⟨hfunction, harguments⟩ := List.forall_mem_cons.mp h
    exact keeps_setArguments (hasIn_some.mp hfunction) harguments fun _ => rfl
  | addBlock function block =>
    obtain ⟨hfunction, hblock⟩ := List.forall_mem_cons.mp h
    exact keeps_addBlock (hasIn_some.mp hfunction)
      (hasIn_some.mp (List.forall_mem_singleton.mp hblock)) rfl
  | append block insn =>
    obtain ⟨hblock, hinsn⟩ := List.forall_mem_cons.mp h
    exact keeps_appendTo hs (hasIn_some.mp hblock)
      (hasIn_some.mp (List.forall_mem_singleton.mp hinsn)) rfl
  | insertBefore block insn before =>
    obtain ⟨hblock, hinsn⟩ := List.forall_mem_cons.mp h
    exact keeps_insertBefore hs (hasIn_some.mp hblock)
      (hasIn_some.mp (List.forall_mem_singleton.mp hinsn)) rfl before
  | insertAfter block insn after =>
    obtain ⟨hblock, hinsn⟩ := List.forall_mem_cons.mp h
    exact keeps_insertAfter hs (hasIn_some.mp hblock)
      (hasIn_some.mp (List.forall_mem_singleton.mp hinsn)) rfl after
  | remove block slot => exact keeps_removeFrom hs block rfl
  | setInstructions block insns =>
    obtain ⟨hblock, hinsns⟩ := List.forall_mem_cons.mp h
    exact keeps_setInstructions hs (hasIn_some.mp hblock) hinsns fun _ => rfl

/-- A placement leaves aside all that has nothing to do with places. -/
theorem Placement.aside_act (placement : Placement) (hs : s.Closed)
    (h : ∀ slot ∈ placement.needs, s.HasIn slot) : s.Aside (placement.act.run s).2 :=
  have hmoves : s.Moves _ (placement.act.run s).2 := (placement.keeps_act hs h).change
  hmoves.toAside

theorem aside_annotate (labelTypes : Nat) (journal : List Entry) :
    s.Aside { s with labelTypes, journal } := by
  refine Aside.of_get?_eq (fun {kind} id => ?_) fun kind => ?_
  · cases kind <;> rfl
  · cases kind <;> rfl

/-- A new object, which nothing hangs together with yet, leaves aside what is there. -/
theorem aside_create {kind : Kind} {object : Object kind} (hblank : kind.Blank object)
    (hslots : ∀ slot ∈ kind.slots object, s.HasIn slot) : s.Aside (s.push kind object) := by
  refine Aside.push ?_ ?_ hslots
  · cases kind with
    | value =>
      -- nothing was there, so that there is no context to keep
      exact ⟨hblank.wrapped, fun _ h => nomatch h⟩
    | node => exact hblank
    | context => exact hblank
    | _ => trivial
  · cases kind with
    | value => exact ⟨hblank.uses, hblank.operands, fun h => nomatch h⟩
    | _ => trivial

/-- So does a revision, if all that the object refers to is there. -/
theorem aside_revise {kind : Kind} {id : Id kind} {f : Object kind → Object kind}
    (h : ∀ o, s.get? id = some o →
      kind.Revises o (f o) ∧ ∀ slot ∈ kind.slots (f o), s.HasIn slot) :
    s.Aside (s.modify id f) := by
  refine Aside.modify (fun o ho => ?_) (fun o ho => ?_) fun _ o ho => (h o ho).2
  · have hrevises := (h o ho).1
    cases kind with
    | value => exact ⟨hrevises.wrapped, hrevises.context⟩
    | node => exact hrevises
    | context =>
      -- contexts change by new entries only, never by revision
      have heq : f o = o := hrevises
      rw [heq]
      exact SameEntries.refl _ _
    | _ => trivial
  · have hrevises := (h o ho).1
    cases kind with
    | value =>
      exact ⟨hrevises.uses, hrevises.operands, fun _ => congrArg some hrevises.isDebugValue⟩
    | _ => trivial

section Reuses

variable {record : Bool} {user : ValueId} {operand : Slot} {operands : List Slot}

/-- Giving a user operands that fit concerns its operands and its uses. -/
theorem Discipline.Fits.reuses_setOperands (h : d.Fits s record operands) (huser : s.IsUser user) :
    Reuses user (fun _ => True) s ((Edit.setOperands user operands).act.run s).2 :=
  (keeps_setOperands huser.has h.held (fun _ _ => trivial) fun _ _ => trivial).change

/-- So does giving it one operand that fits. -/
theorem Discipline.Fits.reuses_setOperand (hs : s.Closed) (h : d.Fits s record [operand])
    (huser : s.IsUser user) (index : Int) :
    Reuses user (fun _ => True) s ((Edit.setOperand user index operand).act.run s).2 :=
  (keeps_setOperand huser.has hs index (List.forall_mem_singleton.mp h.held) (fun _ _ => trivial)
    trivial).change

/-- So does giving it one operand more. -/
theorem Discipline.Fits.reuses_pushOperand (hs : s.Closed) (h : d.Fits s record [operand])
    (huser : s.IsUser user) :
    Reuses user (fun _ => True) s ((Edit.pushOperand user operand).act.run s).2 :=
  (keeps_pushOperand huser.has hs (List.forall_mem_singleton.mp h.held) trivial).change

end Reuses

/-- An admissible edit loses no object and keeps a store sound, whether it faults or not. -/
theorem Edit.extends_sound {e : Edit} (hs : s.Sound) (h : e.Admissible d s) :
    s.Extends (e.act.run s).2 ∧ (e.act.run s).2.Sound := by
  have haside : ∀ {t}, s.Aside t → s.Extends t ∧ t.Sound := fun ht =>
    ⟨ht.toExtends, hs.of_aside ht⟩
  have hreuses : ∀ {user t}, Reuses user (fun _ => True) s t → s.Extends t ∧ t.Sound := fun ht =>
    ⟨ht.toExtends, hs.of_reuses ht⟩
  cases e with
  | annotate labelTypes journal => exact haside (aside_annotate labelTypes journal)
  | create kind object => exact haside (aside_create h.1 h.2)
  | revise kind id f => exact haside (aside_revise h)
  | place placement => exact haside (placement.aside_act hs.closed h)
  | setOperands user operands =>
    obtain ⟨huser, hfits, _⟩ := h
    exact hreuses (hfits.reuses_setOperands huser)
  | setOperand user index operand =>
    obtain ⟨huser, hfits, _⟩ := h
    exact hreuses (hfits.reuses_setOperand hs.closed huser index)
  | pushOperand user operand =>
    obtain ⟨huser, hfits, _⟩ := h
    exact hreuses (hfits.reuses_pushOperand hs.closed huser)
  | addHandle context value handle =>
    obtain ⟨hvalue, hcontext, hfixed, hnone, hhandle⟩ := h
    exact ⟨(moreTables_addHandle hcontext).toExtends,
      hs.addHandle hvalue hcontext hfixed hnone hhandle⟩
  | addWrapper context node =>
    obtain ⟨hcontext, hnode, hnone⟩ := h
    exact ⟨(moreTables_addWrapper hcontext).toExtends, hs.addWrapper hcontext hnode hnone⟩

/-- Handles, wrappers and entries of tables come by two kinds of edits only. -/
theorem Edit.sameTables {e : Edit} (hs : s.Sound) (h : e.Admissible d s)
    (hhandle : ∀ context value handle, e ≠ .addHandle context value handle)
    (hwrapper : ∀ context node, e ≠ .addWrapper context node) :
    s.SameTables (e.act.run s).2 := by
  cases e with
  | annotate labelTypes journal => exact (aside_annotate labelTypes journal).toSameTables
  | create kind object => exact (aside_create h.1 h.2).toSameTables
  | revise kind id f => exact (aside_revise h).toSameTables
  | place placement => exact (placement.aside_act hs.closed h).toSameTables
  | setOperands user operands =>
    obtain ⟨huser, hfits, _⟩ := h
    exact (hfits.reuses_setOperands huser).toSameTables
  | setOperand user index operand =>
    obtain ⟨huser, hfits, _⟩ := h
    exact (hfits.reuses_setOperand hs.closed huser index).toSameTables
  | pushOperand user operand =>
    obtain ⟨huser, hfits, _⟩ := h
    exact (hfits.reuses_pushOperand hs.closed huser).toSameTables
  | addHandle context value handle => exact absurd rfl (hhandle context value handle)
  | addWrapper context node => exact absurd rfl (hwrapper context node)

/-- No edit loses a handle, a wrapper or an entry of a table. -/
theorem Edit.moreTables {e : Edit} (hs : s.Sound) (h : e.Admissible d s) :
    s.MoreTables (e.act.run s).2 := by
  cases e with
  | addHandle context value handle => exact moreTables_addHandle h.2.1
  | addWrapper context node => exact moreTables_addWrapper h.1
  | _ => exact (Edit.sameTables hs h (fun _ _ _ he => nomatch he) fun _ _ he => nomatch he).more

/-! ## One edit after another -/

/-- The stores that admissible edits lead to. -/
inductive Edits (d : Discipline) (s : Store) : Store → Prop
  | refl : Edits d s s
  | step {t : Store} (e : Edit) : Edits d s t → e.Admissible d t → Edits d s (e.act.run t).2

theorem Edits.trans (hst : Edits d s t) (htu : Edits d t u) : Edits d s u := by
  induction htu with
  | refl => exact hst
  | step e _ he ih => exact .step e ih he

/-- What every admissible edit preserves in sound stores holds after all edits. -/
theorem Edits.induction {P : Store → Prop}
    (hstep : ∀ {s : Store} {e : Edit}, s.Sound → P s → e.Admissible d s → P (e.act.run s).2)
    (h : Edits d s t) (hs : s.Sound) (hP : P s) : t.Sound ∧ P t := by
  induction h with
  | refl => exact ⟨hs, hP⟩
  | step e _ he ih => exact ⟨(Edit.extends_sound ih.1 he).2, hstep ih.1 ih.2 he⟩

/-- Edits only add to the tables of contexts. -/
theorem Edits.moreTables (h : Edits d s t) (hs : s.Sound) : s.MoreTables t :=
  (h.induction (P := s.MoreTables) (fun hu hsu he => hsu.trans (Edit.moreTables hu he)) hs
    (.refl s)).2

/-- What edits make of a store: they lose no object and keep it sound. -/
structure Edited (d : Discipline) (s t : Store) : Prop extends s.Extends t where
  sound : s.Sound → t.Sound
  edits : Edits d s t

theorem Edited.refl (d : Discipline) (s : Store) : Edited d s s :=
  ⟨.refl s, fun hs => hs, .refl⟩

theorem Edited.trans (hst : Edited d s t) (htu : Edited d t u) : Edited d s u :=
  ⟨hst.toExtends.trans htu.toExtends, fun hs => htu.sound (hst.sound hs), hst.edits.trans htu.edits⟩

/-- How operations behave: they make admissible edits, and a fault that tells of names or uses out
of step is that of an edit. -/
def Conduct.edits (d : Discipline) : Conduct where
  change := Edited d
  fault s f := f.isBookkeeping = true →
    ∃ t, ∃ e : Edit, Edits d s t ∧ e.Admissible d t ∧ (e.act.run t).1 = .error f
  refl := .refl d
  trans := .trans
  fault_of_change hst hf hbookkeeping := by
    obtain ⟨r, e, hr, he, hfault⟩ := hf hbookkeeping
    exact ⟨r, e, hst.edits.trans hr, he, hfault⟩
  plain hplain hbookkeeping := by
    rw [hplain] at hbookkeeping
    cases hbookkeeping

/-- An admissible edit is what operations may do. -/
theorem keeps_edit {e : Edit} (hs : s.Sound) (h : e.Admissible d s) :
    e.act.Keeps (.edits d) s fun _ t => t = (e.act.run s).2 := by
  have hchange : Edited d s (e.act.run s).2 := by
    obtain ⟨hext, hsound⟩ := Edit.extends_sound hs h
    exact ⟨hext, fun _ => hsound, .step e .refl h⟩
  -- if the edit faults, it is itself the edit that its fault is traced back to
  unfold Act.Keeps
  split
  · next heq =>
    rw [heq] at hchange ⊢
    exact ⟨hchange, rfl⟩
  · next f t heq =>
    rw [heq] at hchange
    refine ⟨hchange, fun _ => ?_⟩
    exact ⟨s, e, .refl, h, by rw [heq]⟩

/-- A placement is one edit, if all that it needs is there. -/
theorem keeps_place (placement : Placement) (hs : s.Sound)
    (h : ∀ slot ∈ placement.needs, s.HasIn slot) :
    placement.act.Keeps (.edits d) s fun _ _ => True :=
  have hedit : (Edit.place placement).act.Keeps (.edits d) s _ := keeps_edit hs h
  hedit.any

/-- A new object is one edit, if all that it refers to is there. -/
theorem keeps_createEdit {kind : Kind} {object : Object kind} (hs : s.Sound)
    (hblank : kind.Blank object) (hslots : ∀ slot ∈ kind.slots object, s.HasIn slot) :
    (SsaDebugInfo.create kind object).Keeps (.edits d) s fun id t =>
      id = s.nextId kind ∧ t = s.push kind object :=
  have hedit : (Edit.create kind object).act.Keeps (.edits d) s _ := keeps_edit hs ⟨hblank, hslots⟩
  keeps_create hedit.change

/-- What has been made is there. -/
theorem keeps_createHas {kind : Kind} {object : Object kind} (hs : s.Sound)
    (hblank : kind.Blank object) (hslots : ∀ slot ∈ kind.slots object, s.HasIn slot) :
    (SsaDebugInfo.create kind object).Keeps (.edits d) s fun id t => t.Has id.ref := by
  refine (keeps_createEdit hs hblank hslots).mono fun id t _ ⟨hid, ht⟩ => ?_
  subst hid ht
  exact has_push.mpr (.inl rfl)

/-- A revision is one edit, if all that the object refers to is there. -/
theorem keeps_reviseEdit {kind : Kind} {id : Id kind} {f : Object kind → Object kind} (hs : s.Sound)
    (h : ∀ o, s.get? id = some o →
      kind.Revises o (f o) ∧ ∀ slot ∈ kind.slots (f o), s.HasIn slot) :
    (update id f).Keeps (.edits d) s fun _ t => t = s.modify id f :=
  have hedit : (Edit.revise kind id f).act.Keeps (.edits d) s _ := keeps_edit hs h
  hedit

/-- What a value without any part in anything holds. -/
theorem Value.Blank.holdsOnly {P : Slot → Prop} {v : Value} (h : v.Blank)
    (hcontext : ∀ c, v.context = some c → P (some (.context c)))
    (hglobal : ∀ g, v.global? = some g → P g.initializer ∧ g.module = none)
    (hinstruction : ∀ i, v.instruction? = some i →
      P i.loc ∧ ∀ b, i.opcode.binding? = some b → P b.var ∧ P b.expression) : v.HoldsOnly P := by
  have hbinding : ∀ b, v.binding? = some b → P b.var ∧ P b.expression := by
    intro b hb
    obtain ⟨opcode, hopcode, hb⟩ := Option.bind_eq_some_iff.mp hb
    obtain ⟨i, hi, rfl⟩ := Option.map_eq_some_iff.mp hopcode
    exact (hinstruction i hi).2 b hb
  exact {
    uses := fun u hu => by rw [h.uses] at hu; cases hu
    context := hcontext
    wrapped := fun n hn => by rw [h.wrapped] at hn; cases hn
    initializer := fun g hg => (hglobal g hg).1
    module := fun g hg m hm => by rw [(hglobal g hg).2] at hm; cases hm
    function := fun f hf => by rw [h.function] at hf; cases hf
    operands := fun o ho => by rw [h.operands] at ho; cases ho
    instructions := fun i hi => by rw [h.instructions] at hi; cases hi
    block := fun b hb => by rw [h.block] at hb; cases hb
    loc := fun i hi => (hinstruction i hi).1
    var := fun b hb => (hbinding b hb).1
    expression := fun b hb => (hbinding b hb).2 }

/-- A change of an instruction is a revision if it leaves the block, and records what they are. -/
theorem Value.revises_mapInstruction (v : Value) {f : Instruction → Instruction}
    (hblock : ∀ i, (f i).block = i.block)
    (hdebug : ∀ i, (f i).opcode.isDebugValue = i.opcode.isDebugValue) :
    v.Revises (v.mapInstruction f) := by
  obtain ⟨_, shape, _, _⟩ := v
  cases shape with
  | instruction site operands i =>
    exact ⟨rfl, rfl, rfl, rfl, rfl, hdebug i, rfl, hblock i, fun _ h => h⟩
  | _ => exact ⟨rfl, rfl, rfl, rfl, rfl, rfl, rfl, rfl, fun _ h => h⟩

theorem Value.revises_mapGlobal (v : Value) (f : Global → Global) : v.Revises (v.mapGlobal f) := by
  obtain ⟨_, shape, _, _⟩ := v
  cases shape <;> exact ⟨rfl, rfl, rfl, rfl, rfl, rfl, rfl, rfl, fun _ h => h⟩

/-- Another name is a revision: the function stays. -/
theorem Value.revises_mapSite (v : Value) {f : Site → Site}
    (hf : ∀ site, (f site).function = site.function) : v.Revises (v.mapSite f) := by
  obtain ⟨_, shape, _, _⟩ := v
  cases shape with
  | argument site => exact ⟨rfl, rfl, rfl, rfl, rfl, rfl, hf site, rfl, fun _ h => h⟩
  | block site => exact ⟨rfl, rfl, rfl, rfl, rfl, rfl, hf site, rfl, fun _ h => h⟩
  | user site => exact ⟨rfl, rfl, rfl, rfl, rfl, rfl, hf site, rfl, fun _ h => h⟩
  | instruction site => exact ⟨rfl, rfl, rfl, rfl, rfl, rfl, hf site, rfl, fun _ h => h⟩
  | _ => exact ⟨rfl, rfl, rfl, rfl, rfl, rfl, rfl, rfl, fun _ h => h⟩

/-- What an instruction is may change, but not where it stands and whether it is a record. -/
theorem keeps_reviseInstruction (hs : s.Sound) {id : ValueId} {f : Instruction → Instruction}
    (hblock : ∀ i, (f i).block = i.block)
    (hdebug : ∀ i, (f i).opcode.isDebugValue = i.opcode.isDebugValue)
    (hloc : ∀ i, s.HasIn i.loc → s.HasIn (f i).loc)
    (hbinding : ∀ i, (∀ b, i.opcode.binding? = some b → s.HasIn b.var ∧ s.HasIn b.expression) →
      ∀ b, (f i).opcode.binding? = some b → s.HasIn b.var ∧ s.HasIn b.expression) :
    (update id (·.mapInstruction f)).Keeps (.edits d) s
      fun _ t => t = s.modify id (·.mapInstruction f) := by
  refine keeps_reviseEdit hs fun o ho => ⟨o.revises_mapInstruction hblock hdebug, ?_⟩
  have hholds := hs.closed.holdsOnly ho
  refine Value.holdsOnly_iff.mp (hholds.mapInstruction (fun i hi b hb => ?_)
    (fun i hi => hloc i (hholds.loc i hi)) fun i hi => hbinding i fun b hb => ?_)
  · refine hholds.block b ?_
    rw [Value.block?, hi, Option.bind_some, ← hblock i]
    exact hb
  · have hholdsBinding : o.binding? = some b := by
      rw [Value.binding?, Value.opcode?, hi]
      exact hb
    exact ⟨hholds.var b hholdsBinding, hholds.expression b hholdsBinding⟩

theorem keeps_record (hs : s.Sound) (entry : Entry) :
    (record entry).Keeps (.edits d) s fun _ _ => True :=
  have hedit : (Edit.annotate s.labelTypes (s.journal ++ [entry])).act.Keeps (.edits d) s _ :=
    keeps_edit hs trivial
  (keeps_modify hedit.change).any

end SsaDebugInfo
