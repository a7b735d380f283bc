import SsaDebugInfo.Diagnostics.Emitter
import SsaDebugInfo.Proofs.Touches
import SsaDebugInfo.Records.Scatter

/-!
# What depends on the function of an instruction

The size of a type is measured for a record by the layout of the record's function, and a diagnostic
about an instruction names the instruction's function. Both read the function off the instruction,
wherever the instruction stands.

- `run_sizeForRecord`: the size of a type by the function of a record.
- `emitOnInstruction_ends`: the function that a diagnostic about an instruction names.
-/

namespace SsaDebugInfo

open Act Store

variable {s t : Store}

/-- The size of a type under the layout of a function's module; the default layout where there is no
function or no module. -/
def sizeInFunction (function : Option FunctionId) (type : Ty) : Act Int := do
  match function with
  | none => MonadExcept.ofExcept (Layout.sizeInBits { text := Layout.defaultText } type).1
  | some f =>
    match (← fetch f).module with
    | none => MonadExcept.ofExcept (Layout.sizeInBits { text := Layout.defaultText } type).1
    | some m => sizeUnder (← fetch m).layout type

/-- A record is measured by the layout of its function. -/
theorem run_sizeForRecord (r : ValueId) (type : Ty) :
    (sizeForRecord r type).run s = (sizeInFunction (s.functionOf? r) type).run s := by
  show (match s.functionOf? r with | none => _ | some f => _ : Act Int).run s = _
  cases s.functionOf? r <;> rfl

/-- The instruction that a diagnostic about an instruction is attributed to. -/
def Store.attributed (s : Store) (depth : Nat) (x : ValueId) : ValueId :=
  match s.instruction? x with
  | some i =>
    if i.loc.isNone && i.opcode.isSynthesized then (s.resolveWithin depth x).getD x else x
  | none => x

/-- Diagnostics stay, and name the functions that they named. -/
def Store.SameSubjects (s t : Store) : Prop :=
  ∀ (id : DiagnosticId) (d : Diagnostic), s.get? id = some d →
    ∃ e : Diagnostic, t.get? id = some e ∧ e.function = d.function

instance : IsPreorder Store SameSubjects where
  refl _ _ d hd := ⟨d, hd, rfl⟩
  trans _ _ _ hst htu id d hd := by
    obtain ⟨e, he, hfunction⟩ := hst id d hd
    obtain ⟨e', he', hfunction'⟩ := htu id e he
    exact ⟨e', he', hfunction'.trans hfunction⟩

/-- A report changes none of what diagnostics are about. -/
theorem Report.sameSubjects (h : Report s t) : s.SameSubjects t := by
  intro id d hd
  cases h with
  | diagnostic =>
    have hhas : s.Has (.diagnostic id) := Option.isSome_iff_exists.mpr ⟨d, hd⟩
    exact ⟨d, (get?_push_of_has id _ hhas).trans hd, rfl⟩
  | notes id' notes =>
    rw [get?_modify]
    split
    · rw [hd]
      exact ⟨_, rfl, rfl⟩
    · exact ⟨d, hd, rfl⟩
  | fill hfills =>
    cases hfills with
    | same => exact ⟨d, hd, rfl⟩
    | index => exact ⟨d, hd, rfl⟩
  | _ => exact ⟨d, hd, rfl⟩

/-- A diagnostic names the function that it is made with. -/
theorem emit_ends (emitter : Emitter) (level : Option String) (reason : String)
    (function location : Slot) :
    (emit emitter level reason function location).Ends s
      (fun id t => ∃ d : Diagnostic, t.get? id = some d ∧ d.function = function)
      fun _ _ => True := by
  have hmake : (makeDiagnostic level fun level => { level, reason, function, location }).Ends s
      (fun id t => ∃ d : Diagnostic, t.get? id = some d ∧ d.function = function)
      fun _ _ => True := by
    unfold makeDiagnostic
    split
    · exact ⟨_, get?_push_self s _, rfl⟩
    · exact ends_throw trivial
  refine hmake.bind fun id t ⟨d, hd, hfunction⟩ => ?_
  have hprocess := ((reports_process emitter.engine (some (.diagnostic id))).relate
    Report.sameSubjects).ends t
  refine Ends.bind (hprocess.mono (fun _ _ h => h) fun _ _ _ => trivial) fun _ u hu => ?_
  obtain ⟨e, he, hsame⟩ := hu id d hd
  exact ends_pure ⟨e, he, hsame.trans hfunction⟩

/-- A diagnostic on an instruction tells of the function that the attributed instruction is in, if
any. -/
theorem emitOnInstruction_ends (emitter : Emitter) (x : ValueId) (reason : String)
    (level : Option String) :
    (emitOnInstruction emitter (.ofValue x) reason level).Ends s
      (fun id t => ∃ d, t.get? id = some d ∧
        d.function = (s.functionOf? (s.attributed emitter.depth x)).map Ref.function)
      fun _ _ => True := by
  refine Reads.bind_ends reads_instructionIn (fun _ => trivial) fun x' hx => ?_
  obtain ⟨heq, _⟩ := hx
  obtain rfl : x = x' := by simpa using heq
  refine Reads.bind_ends reads_get (fun _ => trivial) ?_
  rintro _ rfl
  exact emit_ends _ _ _ _ _

end SsaDebugInfo
