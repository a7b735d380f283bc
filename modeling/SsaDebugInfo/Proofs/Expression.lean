import SsaDebugInfo.Expression

/-!
# Pieces and the reading of expressions

A bit piece is looked for at a fixed place from the end of an expression, while an expression is
read from its start. Where the reading ends in a piece, that piece is found. But the third number
from the end may also be an argument of an operation before it: then a piece is found that the
reading does not have.

- `Expression.finalPiece?`: the piece that the reading of an expression ends in.
- `Expression.Whole`: no operation lacks an argument.
- `Expression.operations_append`: behind a whole expression the reading starts anew.
- `Expression.finalPiece?_eq_some_iff`: when the piece that is found is the one that is read.
-/

namespace SsaDebugInfo.Expression

variable {elements front : List Int} {piece : BitPiece} {operation : Operation}

/-- The piece that the reading of an expression ends in: its last operation, if that selects bits
and lacks no argument. -/
def finalPiece? (elements : List Int) : Option BitPiece :=
  match (operations elements).getLast? with
  | some ⟨code, [offset, size]⟩ => if code = bitPieceCode then some ⟨offset, size⟩ else none
  | _ => none

/-- No operation of the expression lacks an argument. -/
def Whole (elements : List Int) : Prop :=
  ∀ operation ∈ operations elements, operation.isComplete = true

instance (elements : List Int) : Decidable (Whole elements) :=
  inferInstanceAs (Decidable (∀ operation ∈ operations elements, operation.isComplete = true))

/-- The operation that selects the bits of a piece. -/
def BitPiece.selection (piece : BitPiece) : Operation :=
  ⟨bitPieceCode, [piece.offset, piece.size]⟩

theorem BitPiece.elements_selection (piece : BitPiece) :
    piece.selection.elements = ofBitPiece piece.offset piece.size := rfl

/-- The final piece is read off the last operation. -/
theorem finalPiece?_eq_some :
    finalPiece? elements = some piece ↔ (operations elements).getLast? = some piece.selection := by
  unfold finalPiece?
  split
  · next code offset size hlast =>
    rw [hlast]
    obtain ⟨offset', size'⟩ := piece
    by_cases hcode : code = bitPieceCode <;> simp [hcode, BitPiece.selection]
  · next hlast =>
    simp only [reduceCtorEq, false_iff]
    exact fun h => hlast _ _ _ h

/-- Three numbers that end in those of a piece are those of the piece. -/
theorem eq_of_append_ofBitPiece {code offset size : Int}
    (h : [code, offset, size] = front ++ ofBitPiece piece.offset piece.size) :
    front = [] ∧ code = bitPieceCode ∧ piece = ⟨offset, size⟩ := by
  have hlength := congrArg List.length h
  simp only [ofBitPiece, List.length_append, List.length_cons, List.length_nil] at hlength
  obtain rfl : front = [] := List.length_eq_zero_iff.mp (by omega)
  obtain ⟨rfl, rfl, rfl⟩ : code = bitPieceCode ∧ offset = piece.offset ∧ size = piece.size := by
    simpa [ofBitPiece] using h
  exact ⟨rfl, rfl, rfl⟩

/-- A piece is found if the expression ends in its three numbers. -/
theorem bitPiece?_eq_some :
    bitPiece? elements = some piece ↔
      ∃ front, elements = front ++ ofBitPiece piece.offset piece.size := by
  fun_induction bitPiece? elements with
  | case1 => simp [ofBitPiece]
  | case2 offset size =>
    constructor
    · rintro ⟨⟩
      exact ⟨[], rfl⟩
    · rintro ⟨front, hfront⟩
      rw [(eq_of_append_ofBitPiece hfront).2.2]
  | case3 code offset size hcode =>
    constructor
    · intro h
      cases h
    · rintro ⟨front, hfront⟩
      exact absurd (eq_of_append_ofBitPiece hfront).2.1 hcode
  | case4 number rest hshape ih =>
    rw [ih]
    constructor
    · rintro ⟨front, rfl⟩
      exact ⟨number :: front, rfl⟩
    · rintro ⟨_ | ⟨_, front⟩, hfront⟩
      · -- three numbers are a case of their own
        exact (hshape _ _ (List.cons.inj hfront).2).elim
      · exact ⟨front, (List.cons.inj hfront).2⟩

/-! ## Reading in two parts -/

theorem arity_le (code : Int) : arity code ≤ 2 := by
  unfold arity
  split
  · omega
  · split <;> omega

/-- An operation that lacks no argument is read off its numbers, whatever follows. -/
theorem operations_elements_append (h : operation.isComplete = true) (rest : List Int) :
    operations (operation.elements ++ rest) = operation :: operations rest := by
  obtain ⟨code, arguments⟩ := operation
  have harity : arguments.length = arity code := beq_iff_eq.mp h
  have hbound := arity_le code
  rcases arguments with _ | ⟨a, _ | ⟨b, _ | ⟨c, more⟩⟩⟩
  · have hnone : arity code = 0 := harity.symm
    rcases rest with _ | ⟨a, _ | ⟨b, rest⟩⟩ <;> simp [Operation.elements, operations, hnone]
  · have hone : arity code = 1 := harity.symm
    rcases rest with _ | ⟨b, rest⟩ <;> simp [Operation.elements, operations, hone]
  · have htwo : arity code = 2 := harity.symm
    simp [Operation.elements, operations, htwo]
  · simp only [List.length_cons] at harity
    omega

/-- Operations that lack no argument are read off their numbers. -/
theorem operations_flatMap_append {read : List Operation}
    (h : ∀ operation ∈ read, operation.isComplete = true) (rest : List Int) :
    operations (read.flatMap Operation.elements ++ rest) = read ++ operations rest := by
  induction read with
  | nil => rfl
  | cons operation read ih =>
    rw [List.flatMap_cons, List.append_assoc,
      operations_elements_append (h operation List.mem_cons_self),
      ih fun o ho => h o (List.mem_cons_of_mem _ ho)]
    rfl

/-- Behind a whole expression the reading starts anew. -/
theorem operations_append (h : Whole front) (rest : List Int) :
    operations (front ++ rest) = operations front ++ operations rest := by
  have hread := operations_flatMap_append h rest
  rwa [flatMap_elements_operations] at hread

/-- All operations but the last one are the first one or among the others. -/
theorem eq_or_mem_dropLast {first : Operation} {read : List Operation}
    (h : operation ∈ (first :: read).dropLast) : operation = first ∨ operation ∈ read.dropLast := by
  cases read with
  | nil => cases h
  | cons second read => exact List.mem_cons.mp h

/-- Only the last operation of an expression may lack an argument. -/
theorem isComplete_of_mem_dropLast (h : operation ∈ (operations elements).dropLast) :
    operation.isComplete = true := by
  fun_induction operations elements with
  | case1 => cases h
  | case2 code => cases h
  | case3 code a harity ih =>
    rcases eq_or_mem_dropLast h with rfl | h
    · exact beq_iff_eq.mpr harity.symm
    · exact ih h
  | case4 code a harity => cases h
  | case5 code a b rest harity ih =>
    rcases eq_or_mem_dropLast h with rfl | h
    · exact beq_iff_eq.mpr harity.symm
    · exact ih h
  | case6 code a b rest _ harity ih =>
    rcases eq_or_mem_dropLast h with rfl | h
    · exact beq_iff_eq.mpr harity.symm
    · exact ih h
  | case7 code a b rest hzero hone ih =>
    rcases eq_or_mem_dropLast h with rfl | h
    · have hbound := arity_le code
      exact beq_iff_eq.mpr (show 2 = arity code by omega)
    · exact ih h

/-- The piece in which the reading of an expression ends is the piece that is found at its end. The
converse holds exactly if no operation in front of the last three numbers lacks an argument, so that
these are not read as arguments. -/
theorem finalPiece?_eq_some_iff (elements : List Int) (piece : BitPiece) :
    finalPiece? elements = some piece ↔
      bitPiece? elements = some piece ∧ Whole (elements.take (elements.length - 3)) := by
  rw [finalPiece?_eq_some, bitPiece?_eq_some]
  constructor
  · intro hlast
    -- the numbers of the operations before the last one
    obtain ⟨read, hread⟩ := List.getLast?_eq_some_iff.mp hlast
    have hinit : (operations elements).dropLast = read := by rw [hread, List.dropLast_concat]
    have hcomplete : ∀ operation ∈ read, operation.isComplete = true :=
      fun operation ho => isComplete_of_mem_dropLast (hinit ▸ ho)
    have helements := flatMap_elements_operations elements
    rw [hread, List.flatMap_append, List.flatMap_singleton,
      BitPiece.elements_selection] at helements
    refine ⟨⟨_, helements.symm⟩, ?_⟩
    have hfront : elements.take (elements.length - 3) = read.flatMap Operation.elements := by
      rw [← helements]
      simp [ofBitPiece]
    have hwhole := operations_flatMap_append hcomplete []
    rw [List.append_nil, operations, List.append_nil] at hwhole
    rw [hfront, Whole, hwhole]
    exact hcomplete
  · rintro ⟨⟨front, rfl⟩, hwhole⟩
    have hfront : (front ++ ofBitPiece piece.offset piece.size).take
        ((front ++ ofBitPiece piece.offset piece.size).length - 3) = front := by
      simp [ofBitPiece]
    rw [hfront] at hwhole
    rw [operations_append hwhole]
    exact List.getLast?_concat

/-- An addend that is equal to the opcode of a piece makes an expression look like a piece that does
not read as one. -/
theorem bitPiece?_of_addend :
    bitPiece? [plusCode, bitPieceCode, 0, 32] = some ⟨0, 32⟩ ∧
      operations [plusCode, bitPieceCode, 0, 32] =
        [⟨plusCode, [bitPieceCode]⟩, ⟨0, []⟩, ⟨32, []⟩] ∧
      finalPiece? [plusCode, bitPieceCode, 0, 32] = none := by
  decide

end SsaDebugInfo.Expression
