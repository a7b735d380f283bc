import SsaDebugInfo.Proofs.Ir.Build
import SsaDebugInfo.Proofs.Ir.Touches

/-!
# Rules for placing

What operations do to the places of instructions, blocks and arguments they do by placements. A rule
says which placements may be made (`Rule`); it upholds an invariant if the placements that it allows
preserve the invariant, and so does everything that leaves things where they are (`Rule.Upholds`).
Then larger operations preserve the invariant as well. More may have to hold where an operation
starts than holds when it has ended (`Rule.Yields`): what is taken out of a block leaves that as it
is, what is placed need not.

- `Rule.Yields.ends_placeAfter`, `Rule.Yields.ends_erase`: instructions that move.
- `Rule.Yields.ends_makeBlock`, `Rule.Yields.ends_makeFunction`: blocks and functions that are made
  with something in them.
-/

namespace SsaDebugInfo

open Act Store

variable {s t : Store}

/-- A rule for what may be placed where, and what may be renamed. -/
structure Rule where
  place : Store → Placement → Bool
  /-- Whether an instruction that is in no block may be put beside another. -/
  move : Store → ValueId → ValueId → Bool
  /-- Whether a new function may get some arguments. -/
  arguments : Store → List Slot → Bool
  /-- Whether a new block may get some instructions. -/
  instructions : Store → List Slot → Bool
  rename : Store → ValueId → Bool
  /-- Faults after which the invariant may be lost. -/
  lost : Fault → Bool

namespace Rule

/-- The invariant holds after a fault, unless the fault is excepted. -/
def orElse (rule : Rule) (P : Store → Prop) (f : Fault) (t : Store) : Prop :=
  rule.lost f = false → P t

/-- What is done by a rule, where something holds at the start, ends with something that holds; what
is taken out of a block preserves what holds at the start. -/
structure Yields (rule : Rule) (start P : Store → Prop) : Prop where
  enough : ∀ {s}, start s → P s
  sound : ∀ {s}, P s → s.Sound
  unmoved : ∀ {s t}, P s → s.Unmoved t → t.Sound → P t
  start_unmoved : ∀ {s t}, start s → s.Unmoved t → t.Sound → start t
  place : ∀ {s}, P s → ∀ p : Placement, (∀ slot ∈ p.needs, s.HasIn slot) →
    rule.place s p = true → p.act.Ends s (fun _ t => P t) (rule.orElse P)
  removeFrom : ∀ {s}, start s → ∀ b slot, (removeFrom b slot).Ends s (fun _ t => start t ∧
    (∀ x form, s.formOf? x = some form → t.formOf? x = some form) ∧
    ∀ x target, slot = .ofValue x → rule.move s x target = true → rule.move t x target = true)
    (rule.orElse P)
  rename : ∀ {s v}, P s → rule.rename s v = true → ∀ name {t},
    Unmoved (s.modify v (·.mapSite fun site => { site with name })) t → t.Sound → P t
  /-- What may move may be placed next to an instruction of a block. -/
  move : ∀ {s}, P s → ∀ {x target b}, s.formOf? x = some .instruction → s.blockOf? x = none →
    s.blockOf? target = some b → rule.move s x target = true →
    rule.place s (.insertBefore b x (.ofValue target)) = true ∧
      rule.place s (.insertAfter b x (.ofValue target)) = true
  move_unmoved : ∀ {s t x target}, s.Unmoved t → s.Has (.value x) → rule.move s x target = true →
    rule.move t x target = true
  /-- A new instruction without a name may move. -/
  move_new : ∀ {s x o}, s.get? x = some o → o.site? = some { name := "" } →
    ∀ target, rule.move s x target = true
  arguments : ∀ {s t f l}, s.Unmoved t → ¬ s.Has (.function f) → (∀ slot ∈ l, s.HasIn slot) →
    rule.arguments s l = true → rule.place t (.setArguments f l) = true
  instructions : ∀ {s t b l}, s.Unmoved t → t.formOf? b = some .block → t.functionOf? b = none →
    rule.instructions s l = true → rule.place t (.setInstructions b l) = true

/-- What is done by a rule preserves an invariant. -/
structure Upholds (rule : Rule) (P : Store → Prop) : Prop extends rule.Yields P P where
  initial : P .initial
  collect : ∀ {s}, P s → ∀ roots, P (s.collect roots)
  enough := fun hs => hs
  start_unmoved := unmoved

namespace Yields

variable {rule : Rule} {start P : Store → Prop} (h : rule.Yields start P)

/-- A fault that leaves the store as it is. -/
theorem fault (hs : P s) (f : Fault) : rule.orElse P f s :=
  fun _ => hs

/-- What holds after a run holds however it has ended. -/
theorem ends_of_run {α : Type} {act : Act α} (ht : P (act.run s).2) :
    act.Ends s (fun _ t => P t) (rule.orElse P) := by
  unfold Ends
  split
  · next heq => rwa [heq] at ht
  · next heq =>
    rw [heq] at ht
    exact fault ht _

/-- What leaves everything where it is preserves what does not depend on anything else. -/
theorem still_of {α : Type} {act : Act α} {answers : α → Store → Prop} {Q : Store → Prop}
    (hs : s.Sound) (hunmoved : ∀ {t}, s.Unmoved t → t.Sound → Q t) (henough : ∀ {t}, Q t → P t)
    (hstill : act.Only Unmoved) (hkeeps : act.Keeps (.edits {}) s answers) :
    act.Ends s (fun a t => Q t ∧ s.Unmoved t ∧ answers a t) (rule.orElse P) := by
  refine ((hstill.ends s).and hkeeps.ends).mono (fun a t ht => ?_) fun f t ht _ => ?_
  · exact ⟨hunmoved ht.1 (ht.2.1.sound hs), ht.1, ht.2.2⟩
  · exact henough (hunmoved ht.1 (ht.2.1.sound hs))

include h

theorem start_sound (hs : start s) : s.Sound :=
  h.sound (h.enough hs)

/-- What leaves everything where it is preserves what holds in the end. -/
theorem still {α : Type} {act : Act α} {answers : α → Store → Prop} (hs : P s)
    (hstill : act.Only Unmoved) (hkeeps : act.Keeps (.edits {}) s answers) :
    act.Ends s (fun a t => P t ∧ s.Unmoved t ∧ answers a t) (rule.orElse P) :=
  still_of (h.sound hs) (h.unmoved hs) (fun ht => ht) hstill hkeeps

/-- What leaves everything where it is preserves what holds at the start. -/
theorem start_still {α : Type} {act : Act α} {answers : α → Store → Prop} (hs : start s)
    (hstill : act.Only Unmoved) (hkeeps : act.Keeps (.edits {}) s answers) :
    act.Ends s (fun a t => start t ∧ s.Unmoved t ∧ answers a t) (rule.orElse P) :=
  still_of (h.start_sound hs) (h.start_unmoved hs) h.enough hstill hkeeps

/-! ## Instructions that move -/

section Moves

variable {x : ValueId}

/-- An instruction may leave the block that it is in. -/
theorem ends_removeFromParent (hs : start s) (x : ValueId) :
    (removeFromParent x).Ends s (fun _ t => start t ∧
      (∀ form, s.formOf? x = some form → t.formOf? x = some form) ∧
      ∀ target, rule.move s x target = true → rule.move t x target = true) (rule.orElse P) := by
  refine Reads.bind_ends reads_get (fault (h.enough hs)) ?_
  rintro _ rfl
  split
  · exact (h.removeFrom hs _ _).mono (fun _ t ht => ⟨ht.1, ht.2.1 x, fun target =>
      ht.2.2 x target rfl⟩) fun _ _ hf => hf
  · exact ends_pure ⟨hs, fun _ h => h, fun _ h => h⟩

/-- An instruction that may move may be put after another. -/
theorem ends_placeAfter (hs : P s) (hx : s.formOf? x = some .instruction) (after : Slot)
    (hmove : ∀ target, after = .ofValue target → rule.move s x target = true) :
    (placeAfter x after).Ends s (fun _ t => P t) (rule.orElse P) := by
  refine Reads.bind_ends reads_get (fault hs) ?_
  rintro _ rfl
  refine Reads.bind_ends reads_require (fault hs) fun _ hdetached => ?_
  refine Reads.bind_ends reads_instructionIn (fault hs) fun target htarget => ?_
  obtain ⟨rfl, v, i, hv, hi⟩ := htarget
  refine Reads.bind_ends reads_get (fault hs) ?_
  rintro _ rfl
  split
  · exact ends_throw (fault hs _)
  · next s b hblock =>
    have hb := (h.sound hs).closed.has_block hblock
    refine h.place hs (.insertAfter b x (.ofValue target)) ?_
      (h.move hs hx (Option.isNone_iff_eq_none.mp hdetached) hblock (hmove target rfl)).2
    exact List.forall_mem_cons.mpr ⟨hasIn_some.mpr hb,
      List.forall_mem_singleton.mpr (hasIn_some.mpr (has_of_formOf? hx))⟩

/-- Erasing takes the instruction out of its block, and the rest leaves everything where it is. -/
theorem ends_erase (hs : start s) (hx : s.formOf? x = some .instruction) :
    (erase x).Ends s (fun _ t => P t) (rule.orElse P) := by
  refine (h.ends_removeFromParent hs x).bind fun _ t ⟨ht, hform, _⟩ => ?_
  have ht := h.enough ht
  obtain ⟨v, i, hv, hi⟩ := formOf?_eq_instruction.mp (hform _ hx)
  have hdrop : (dropReferences x).Keeps (.edits {}) t fun _ u => u = _ :=
    keeps_edit (e := .setOperands x []) (h.sound ht)
      ⟨⟨v, hv, Value.isUser_of_instruction? hi⟩, Discipline.fits_nil, fun h => nomatch h⟩
  refine (h.still ht (still_setOperands x []) hdrop).bind fun _ u ⟨hu, _⟩ => ?_
  refine Reads.bind_ends reads_get (fault hu) ?_
  rintro _ rfl
  exact (Reads.ends reads_require).mono (fun _ _ h => h.1 ▸ hu) fun _ _ h _ => h.1 ▸ hu

end Moves

/-! ## New blocks and functions -/

/-- A new block may take instructions. -/
theorem ends_makeBlock (hs : P s) (name : String) {insns : List Slot}
    (hinsns : ∀ slot ∈ insns, s.HasIn slot) (hallowed : rule.instructions s insns = true) :
    (makeBlock name insns).Ends s (fun _ t => P t) (rule.orElse P) := by
  refine (h.still hs (touches_formType _).still (keeps_formType (h.sound hs) _)).bind
    fun type t ⟨ht, hst, _⟩ => ?_
  let object : Value := { type, shape := .block { name } [] }
  have hblank : Value.Blank object := ⟨rfl, rfl, rfl, rfl, rfl, rfl⟩
  have hcreate := keeps_makeValue (d := {}) (h.sound ht) hblank (hblank.holdsOnly
    (fun _ h => nomatch h) (fun _ h => nomatch h) fun _ h => nomatch h)
  refine (h.still ht (touches_createValue rfl rfl rfl).still hcreate).bind
    fun id u ⟨hu, htu, hid, hself, _⟩ => ?_
  have hsu : s.Unmoved u := hst.trans htu
  refine (h.place hu (.setInstructions id insns) ?_ ?_).bind fun _ q hq => ends_pure hq
  · exact List.forall_mem_cons.mpr
      ⟨hasIn_some.mpr hid, fun slot hslot => hsu.hasIn (hinsns slot hslot)⟩
  · refine h.instructions hsu (formOf?_eq_block.mpr ⟨object, hself, rfl⟩) ?_ hallowed
    rw [functionOf?, hself]
    rfl

/-- A new function may take arguments that were allowed before. -/
theorem ends_makeFunction {s₀ : Store} (hunmoved : s₀.Unmoved s) (hs : P s) (name : String)
    (result : Ty) {arguments : List Slot} {subprogram : Slot} {context : Option ContextId}
    (hsubprogram : s.HasIn subprogram) (hcontext : ∀ c, context = some c → s.Has (.context c))
    (harguments : ∀ slot ∈ arguments, s₀.HasIn slot)
    (hallowed : rule.arguments s₀ arguments = true) :
    (makeFunction name result arguments subprogram context).Ends s (fun _ t => P t)
      (rule.orElse P) := by
  refine Reads.bind_ends (reads_mapM fun _ _ => reads_typeIn) (fault hs) fun parameters _ => ?_
  let object : Function := { name, result, parameters, subprogram, context }
  have hcreate : (create .function object).Keeps (.edits {}) s _ :=
    keeps_createFunction (h.sound hs) name result parameters hsubprogram hcontext
  have hnew : (create .function object).Ends s (fun id _ => ¬ s.Has (.function id))
      fun _ _ => True := fun h => @ne_nextId .function s _ h rfl
  have hstill : (create .function object).Only Unmoved :=
    only_create fun _ => .push ⟨rfl, rfl⟩
  refine ((h.still hs hstill hcreate).also hnew).bind fun id t ⟨⟨ht, hst, hid⟩, hid'⟩ => ?_
  refine (h.place ht (.setArguments id arguments) ?_ ?_).bind fun _ q hq => ends_pure hq
  · exact List.forall_mem_cons.mpr
      ⟨hasIn_some.mpr hid, fun slot hslot => hst.hasIn (hunmoved.hasIn (harguments slot hslot))⟩
  · exact h.arguments (hunmoved.trans hst) (fun hhas => hid' (hunmoved.has hhas)) harguments
      hallowed

end Yields

end Rule

end SsaDebugInfo
