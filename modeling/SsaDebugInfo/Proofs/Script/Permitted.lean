import Mathlib.Data.List.Forall2
import SsaDebugInfo.Proofs.Act.PlainFaults
import SsaDebugInfo.Proofs.Edit

/-!
# Permitted operations

An operation is permitted under a discipline if what it hands over as operands is what the
discipline asks for. What it is given by labels is there, and what it leaves is an outcome: an
object to be bound, which is there, and an answer that is read off with plain faults.

- `Operation.permitted`: what a discipline asks of operations.
- `Labels.Held`, `Labels.Give`: labels lead to what is there.
- `Labels.Give.fits`: what a permitted operation hands over fits as operands.
- `Outcome.Sound`: what an operation leaves is there.
-/

namespace SsaDebugInfo.Script

open Act Store

/-! ## Permitted operations -/

/-- What a new instruction takes as its operands. -/
def NewInstruction.operands : NewInstruction → List Given
  | plain operands _ => operands
  | arith _ lhs rhs => [lhs, rhs]
  | phi _ => []
  | select condition ifTrue ifFalse => [condition, ifTrue, ifFalse]
  | insertElement vector element index => [vector, element, index]
  | extractElement vector index => [vector, index]
  | branch target => [target]
  | branchIf condition ifTrue ifFalse => [condition, ifTrue, ifFalse]
  | ret value => [value]
  | debugValue wrapper _ _ _ => [wrapper]

/-- What an operation hands over as operands. -/
def Operation.handsOver : Operation → List Given
  | .make (.user operands _ _) => operands
  | .make (.instruction form _ _) => form.operands
  | .change (.addIncoming _ value block) => [value, block]
  | .change (.setOperand _ _ value) => [value]
  | .change (.setOperands _ values) => values
  | _ => []

/-- Whether what is given is a value, if it is anything. -/
def Labels.givesValue (labels : Labels) (given : Given) : Bool :=
  match labels.get given with
  | .ok slot => slot.value?.isSome
  | .error _ => true

/-- Whether what is given is a debug record. -/
def Labels.givesRecord (labels : Labels) (s : Store) (given : Given) : Bool :=
  match labels.get given with
  | .ok slot => slot.value?.any s.isRecord
  | .error _ => false

/-- Whether an operation makes a debug record out of a wrapper, or exchanges the operands of one. -/
def Operation.handlesRecord (labels : Labels) (s : Store) : Operation → Bool
  | .make (.instruction (.debugValue ..) _ _) => true
  | .change (.setOperand user _ _) | .change (.setOperands user _) => labels.givesRecord s user
  | _ => false

/-- Whether an operation changes what a debug record holds that there is already. -/
def Operation.freesRecord (labels : Labels) (s : Store) : Operation → Bool
  | .change (.setOperand user _ _) | .change (.setOperands user _)
  | .change (.dropReferences user) | .change (.erase user) => labels.givesRecord s user
  | .records (.migrate ..) => true
  | _ => false

/-- Whether a discipline permits an operation. -/
def Operation.permitted (d : Discipline) (labels : Labels) (s : Store) (operation : Operation) :
    Bool :=
  (!d.values || operation.handsOver.all labels.givesValue) &&
    (!d.records || !operation.handlesRecord labels s) &&
      (!d.steady || !operation.freesRecord labels s)

variable {d : Discipline} {s t : Store} {labels : Labels}

theorem Operation.values_of_permitted {operation : Operation}
    (h : operation.permitted d labels s = true) (hd : d.values = true) :
    ∀ given ∈ operation.handsOver, labels.givesValue given = true := by
  rw [permitted, Bool.and_eq_true, Bool.and_eq_true, hd] at h
  exact List.all_eq_true.mp (by simpa using h.1.1)

theorem Operation.records_of_permitted {operation : Operation}
    (h : operation.permitted d labels s = true) (hd : d.records = true) :
    operation.handlesRecord labels s = false := by
  rw [permitted, Bool.and_eq_true, Bool.and_eq_true, hd] at h
  simpa using h.1.2

theorem Operation.steady_of_permitted {operation : Operation}
    (h : operation.permitted d labels s = true) (hd : d.steady = true) :
    operation.freesRecord labels s = false := by
  rw [permitted, Bool.and_eq_true, Bool.and_eq_true, hd] at h
  simpa using h.2

/-! ## Labels -/

/-- All labels are bound to what is there, or to nothing. -/
def Labels.Held (labels : Labels) (s : Store) : Prop :=
  ∀ entry ∈ labels, s.HasIn entry.2

theorem Labels.Held.extends (h : labels.Held s) (ht : s.Extends t) : labels.Held t :=
  fun entry hentry => ht.hasIn (h entry hentry)

theorem Labels.Held.get (h : labels.Held s) {given : Given} {slot : Slot}
    (hget : labels.get given = .ok slot) : s.HasIn slot := by
  unfold Labels.get at hget
  split at hget
  · cases hget
    exact hasIn_none
  · next label =>
    split at hget
    · next slot' hlookup =>
      cases hget
      obtain ⟨l₁, l₂, hsplit, _⟩ := List.lookup_eq_some_iff.mp hlookup
      exact h (label, slot) (by rw [hsplit]; simp)
    · cases hget

/-- The labels are bound to objects which are there, or to nothing: these are what is given. -/
def Labels.Give (labels : Labels) (s : Store) : List Given → List Slot → Prop :=
  List.Forall₂ fun given slot => labels.get given = .ok slot ∧ s.HasIn slot

theorem Labels.Give.hasIn {given : List Given} {slots : List Slot} (h : labels.Give s given slots) :
    ∀ slot ∈ slots, s.HasIn slot := by
  induction h with
  | nil => exact fun _ h => nomatch h
  | cons hslot _ ih => exact List.forall_mem_cons.mpr ⟨hslot.2, ih⟩

theorem Labels.Give.extends {given : List Given} {slots : List Slot}
    (h : labels.Give s given slots) (ht : s.Extends t) : labels.Give t given slots :=
  List.Forall₂.imp (fun _ _ hslot => ⟨hslot.1, ht.hasIn hslot.2⟩) h

theorem reads_look (h : labels.Held s) (given : Given) :
    (labels.look given).Reads s fun slot => labels.get given = .ok slot ∧ s.HasIn slot :=
  (reads_ofExcept (labels.plain_get given)).mono fun _ hget => ⟨hget, h.get hget⟩

theorem reads_lookAll (h : labels.Held s) (given : List Given) :
    (labels.lookAll given).Reads s fun slots => labels.Give s given slots := by
  unfold Labels.lookAll
  induction given with
  | nil => exact reads_pure .nil
  | cons g rest ih =>
    rw [List.mapM_cons]
    refine (reads_look h g).bind_reads fun slot hslot => ih.bind_pure fun slots hslots => ?_
    exact .cons hslot hslots

/-- An object of some kind, by its label. -/
theorem reads_lookIn {α : Type} (h : labels.Held s) (given : Given) {get : Slot → Act α}
    {P : Slot → α → Prop} (hget : ∀ slot, (get slot).Reads s (P slot)) :
    (labels.look given >>= get).Reads s fun a =>
      ∃ slot, labels.get given = .ok slot ∧ s.HasIn slot ∧ P slot a :=
  (reads_look h given).bind_reads fun slot hslot =>
    (hget slot).mono fun _ ha => ⟨slot, hslot.1, hslot.2, ha⟩

/-- What is given for operands fits a user that is no debug record, if it is given as the discipline
asks for. -/
theorem Labels.Give.fits {given : List Given} {operands : List Slot}
    (h : labels.Give s given operands)
    (hgiven : d.values = true → ∀ g ∈ given, labels.givesValue g = true) :
    d.Fits s false operands where
  held := h.hasIn
  value hd := by
    induction h with
    | nil => exact fun _ h => nomatch h
    | cons hslot _ ih =>
      obtain ⟨hg, hrest⟩ := List.forall_mem_cons.mp (hgiven hd)
      refine List.forall_mem_cons.mpr ⟨?_, ih fun _ => hrest⟩
      unfold givesValue at hg
      rw [hslot.1] at hg
      obtain ⟨v, hv⟩ := Option.isSome_iff_exists.mp hg
      exact ⟨v, Slot.value?_eq_some_iff.mp hv⟩
  tied _ h := nomatch h

/-! ## Outcomes -/

/-- What an outcome leaves to be bound is there, and reading off the answer faults plainly. -/
structure Outcome.Sound (outcome : Outcome) (s : Store) : Prop where
  made : ∀ slot, outcome.made = some slot → s.HasIn slot
  answer : ∀ view, Plain (outcome.answer view)

namespace Outcome

theorem sound_silent : Outcome.silent.Sound s where
  made _ h := nomatch h
  answer _ := plain_ok _

theorem sound_plain (answer : Answer) : (Outcome.plain answer).Sound s where
  made _ h := nomatch h
  answer _ := plain_ok _

theorem sound_object (slot : Slot) : (Outcome.object slot).Sound s where
  made _ h := nomatch h
  answer view := (view.plain_shown slot).map _

theorem sound_objects (slots : List Slot) : (Outcome.objects slots).Sound s where
  made _ h := nomatch h
  answer view := (plain_mapM slots view.plain_shown).map _

theorem sound_creation {ref : Ref} (h : s.Has ref) : (Outcome.creation ref).Sound s where
  made _ hmade := by
    cases hmade
    exact hasIn_some.mpr h
  answer := (sound_object (s := s) (some ref)).answer

theorem sound_quiet {ref : Ref} (h : s.Has ref) : (Outcome.quiet ref).Sound s where
  made _ hmade := by
    cases hmade
    exact hasIn_some.mpr h
  answer _ := plain_ok _

theorem sound_diagnostic {id : DiagnosticId} (h : s.Has (.diagnostic id)) :
    (Outcome.diagnostic id).Sound s where
  made _ hmade := by
    cases hmade
    exact hasIn_some.mpr h
  answer view := (view.plain_report id).map _

theorem sound_answer {answer : View → Except Fault Answer} (h : ∀ view, Plain (answer view)) :
    Outcome.Sound { answer } s where
  made _ h := nomatch h
  answer := h

end Outcome

end SsaDebugInfo.Script
