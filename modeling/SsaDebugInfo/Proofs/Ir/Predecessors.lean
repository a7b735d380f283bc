import SsaDebugInfo.Proofs.Ir.Containment
import SsaDebugInfo.Proofs.Ir.UseDef

/-!
# Predecessors

The predecessors of a block are read off its uses: each terminator that has the block among its
operands stands for the block that it is placed in, or for none. While users and operands agree, and
links and lists, this counts the terminators that stand in other blocks and have this one among
their operands; a terminator that is placed nowhere still counts as one in no block.

- `Store.targets`: an instruction of some sort with a block among its operands.
- `Store.mem_predecessors`, `Store.count_predecessors`: what is among the predecessors, how often.
-/

namespace SsaDebugInfo

/-- Whether control goes on in a block that is among the operands. A terminator that is no branch
leaves the function. -/
def Opcode.isBranch : Opcode → Bool
  | branch | branchIf => true
  | _ => false

namespace Store

variable {s : Store} {sort : Opcode → Bool} {b c x : ValueId} {slot : Slot}

/-- Whether a slot holds an instruction of some sort that has the block among its operands. -/
def targets (s : Store) (sort : Opcode → Bool) (b : ValueId) (slot : Slot) : Bool :=
  (s.instructionIn? slot).any fun insn =>
    sort insn.2.opcode && decide (Slot.ofValue b ∈ s.operandsOf insn.1)

/-- An instruction of a sort targets a block if it uses the block as an operand. -/
theorem targets_eq_true : s.targets sort b slot = true ↔ ∃ x i, slot = .ofValue x ∧
    s.instruction? x = some i ∧ sort i.opcode = true ∧ Slot.ofValue b ∈ s.operandsOf x := by
  constructor
  · intro h
    obtain ⟨⟨x, i⟩, hin, hboth⟩ := (Option.any_eq_true _ _).mp h
    obtain ⟨rfl, v, hv, hi⟩ := instructionIn?_eq_some.mp hin
    obtain ⟨hsort, hmem⟩ := Bool.and_eq_true_iff.mp hboth
    exact ⟨x, i, rfl, Option.bind_eq_some_iff.mpr ⟨v, hv, hi⟩, hsort, of_decide_eq_true hmem⟩
  · rintro ⟨x, i, rfl, hinsn, hsort, hmem⟩
    obtain ⟨v, hv, hi⟩ := Option.bind_eq_some_iff.mp hinsn
    refine (Option.any_eq_true _ _).mpr ⟨(x, i), instructionIn?_eq_some.mpr ⟨rfl, v, hv, hi⟩, ?_⟩
    exact Bool.and_eq_true_iff.mpr ⟨hsort, decide_eq_true hmem⟩

theorem blockOf?_of_instruction? {i : Instruction} (h : s.instruction? x = some i) :
    s.blockOf? x = i.block := by
  obtain ⟨v, hv, hi⟩ := Option.bind_eq_some_iff.mp h
  rw [blockOf?, hv, Option.bind_some, Value.block?, hi, Option.bind_some]

/-- What a user of a block stands for among the predecessors: where it is placed, if it is a
terminator. -/
def predecessor? (s : Store) (user : ValueId) : Option (Option ValueId) := do
  let i ← s.instruction? user
  if i.opcode.isTerminator then some i.block else none

/-- Of the users of a block the terminators that target it tell a predecessor: the block that they
are in, if any. -/
theorem predecessor?_eq_some {p : Option ValueId} (hx : x ∈ s.usesOf b) (huses : s.UseDef) :
    s.predecessor? x = some p ↔
      s.targets Opcode.isTerminator b (.ofValue x) = true ∧ s.blockOf? x = p := by
  have hoperand : Slot.ofValue b ∈ s.operandsOf x := ((huses x).mem_iff b).mp hx
  rw [targets_eq_true]
  constructor
  · intro h
    obtain ⟨i, hi, h⟩ := Option.bind_eq_some_iff.mp h
    by_cases hterminator : i.opcode.isTerminator = true
    · rw [if_pos hterminator] at h
      cases h
      exact ⟨⟨x, i, rfl, hi, hterminator, hoperand⟩, blockOf?_of_instruction? hi⟩
    · rw [if_neg hterminator] at h
      cases h
  · rintro ⟨⟨x', i, hx', hi, hterminator, _⟩, hblock⟩
    obtain rfl : x = x' := by simpa using hx'
    rw [← hblock, blockOf?_of_instruction? hi]
    exact Option.bind_eq_some_iff.mpr ⟨i, hi, if_pos hterminator⟩

/-- Among the predecessors of a block is what the terminators that have the block among their
operands are placed in, even if that is no block. -/
theorem mem_predecessors (huses : s.UseDef) {p : Option ValueId} :
    p ∈ s.predecessors b ↔
      ∃ x, s.targets Opcode.isTerminator b (.ofValue x) = true ∧ s.blockOf? x = p := by
  show p ∈ (s.usesOf b).filterMap s.predecessor? ↔ _
  rw [List.mem_filterMap]
  constructor
  · rintro ⟨x, hx, hp⟩
    exact ⟨x, (predecessor?_eq_some hx huses).mp hp⟩
  · rintro ⟨x, htargets, hblock⟩
    obtain ⟨x', i, hx', _, _, hoperand⟩ := targets_eq_true.mp htargets
    obtain rfl : x = x' := by simpa using hx'
    have hx : x ∈ s.usesOf b := ((huses x).mem_iff b).mpr hoperand
    exact ⟨x, hx, (predecessor?_eq_some hx huses).mpr ⟨htargets, hblock⟩⟩

/-- A block precedes another as often as a terminator in its list has the other among its operands:
the users on one side and the instructions on the other are the same, each once. -/
theorem count_predecessors (honce : (s.usesOf b).Nodup) (huses : s.UseDef) (h : s.Contained) :
    (s.predecessors b).count (some c) =
      (s.instructionsOf c).countP (s.targets Opcode.isTerminator b) := by
  have hplaced : ∀ x, x ∈ s.usesOf b ∧
      s.targets Opcode.isTerminator b (.ofValue x) = true ∧ s.blockOf? x = some c ↔
        Slot.ofValue x ∈ s.instructionsOf c ∧
          s.targets Opcode.isTerminator b (.ofValue x) = true := by
    intro x
    rw [h.mem_instructionsOf]
    constructor
    · rintro ⟨_, htargets, hblock⟩
      exact ⟨hblock, htargets⟩
    · rintro ⟨hblock, htargets⟩
      obtain ⟨x', i, hx', _, _, hoperand⟩ := targets_eq_true.mp htargets
      obtain rfl : x = x' := by simpa using hx'
      exact ⟨((huses x).mem_iff b).mpr hoperand, htargets, hblock⟩
  -- neither list has anything twice, so that they agree up to order as soon as they agree as sets
  have hperm : (((s.usesOf b).filter (s.predecessor? · == some (some c))).map Slot.ofValue).Perm
      ((s.instructionsOf c).filter (s.targets Opcode.isTerminator b)) := by
    have hinj : Function.Injective Slot.ofValue := fun x y hxy => by simpa using hxy
    refine (List.perm_ext_iff_of_nodup ((honce.filter _).map hinj)
      ((h.instructionsOnce c).filter _)).mpr fun slot => ?_
    rw [List.mem_map, List.mem_filter]
    constructor
    · rintro ⟨x, hx, rfl⟩
      obtain ⟨hx, hcounted⟩ := List.mem_filter.mp hx
      obtain ⟨htargets, hblock⟩ := (predecessor?_eq_some hx huses).mp (eq_of_beq hcounted)
      exact (hplaced x).mp ⟨hx, htargets, hblock⟩
    · rintro ⟨hslot, htargets⟩
      obtain ⟨x, _, rfl, _⟩ := targets_eq_true.mp htargets
      obtain ⟨hx, htargets, hblock⟩ := (hplaced x).mpr ⟨hslot, htargets⟩
      refine ⟨x, List.mem_filter.mpr ⟨hx, ?_⟩, rfl⟩
      exact beq_iff_eq.mpr ((predecessor?_eq_some hx huses).mpr ⟨htargets, hblock⟩)
  calc (s.predecessors b).count (some c)
      = (s.usesOf b).countP (s.predecessor? · == some (some c)) := List.count_filterMap
    _ = (((s.usesOf b).filter (s.predecessor? · == some (some c))).map Slot.ofValue).length := by
      rw [List.length_map, List.countP_eq_length_filter]
    _ = ((s.instructionsOf c).filter (s.targets Opcode.isTerminator b)).length := hperm.length_eq
    _ = (s.instructionsOf c).countP (s.targets Opcode.isTerminator b) :=
      List.countP_eq_length_filter.symm

/-- Where no return has the block among its operands, the terminators that do are branches. -/
theorem targets_isTerminator (h : ∀ slot, s.targets (· == .ret) b slot = false) (slot : Slot) :
    s.targets Opcode.isTerminator b slot = s.targets Opcode.isBranch b slot := by
  rw [Bool.eq_iff_iff, targets_eq_true, targets_eq_true]
  constructor
  · rintro ⟨x, i, rfl, hi, hterminator, hoperand⟩
    refine ⟨x, i, rfl, hi, ?_, hoperand⟩
    cases hopcode : i.opcode with
    | ret =>
      have hret : s.targets (· == .ret) b (.ofValue x) = true :=
        targets_eq_true.mpr ⟨x, i, rfl, hi, beq_iff_eq.mpr hopcode, hoperand⟩
      rw [h] at hret
      cases hret
    | branch => rfl
    | branchIf => rfl
    | _ =>
      rw [hopcode] at hterminator
      cases hterminator
  · rintro ⟨x, i, rfl, hi, hbranch, hoperand⟩
    refine ⟨x, i, rfl, hi, ?_, hoperand⟩
    cases hopcode : i.opcode with
    | branch => rfl
    | branchIf => rfl
    | _ =>
      rw [hopcode] at hbranch
      cases hbranch

end Store

end SsaDebugInfo
