import SsaDebugInfo.Expression
import SsaDebugInfo.Proofs.Text.Number

/-!
# Reading written expressions back

An opcode that has a name is written by its name, but the same number as an argument is written as a
number. Either way the word tells the number, so that a written expression is read back word by
word, without following which words are opcodes. The question marks in the place of missing
arguments tell no number and are passed over.

- `Expression.readWord`, `Expression.read`: the reading.
- `Expression.filterMap_readWord_print`: the numbers of an operation are read back from its words.
- `Expression.read_print`: a written expression is read back.
- `Expression.print_eq_print_iff`: different expressions are written differently.
-/

namespace SsaDebugInfo.Expression

/-- The number that a word stands for: an opcode by its name, or a number as it is. An empty word
and the sign of a missing argument stand for none. -/
def readWord (word : String) : Option Int :=
  if word = "" ∨ word = "?" then none
  else if word = "DW_OP_deref" then some derefCode
  else if word = "DW_OP_plus" then some plusCode
  else if word = "DW_OP_bit_piece" then some bitPieceCode
  else some (readNumber word.toList)

/-- The numbers of the expression that a text is the written form of: what stands between the
parentheses is set apart by commas, and blanks do not matter. -/
def read (text : String) : List Int :=
  let inside := (text.toList.drop "!DIExpression(".length).dropLast
  ((inside.filter (· != ' ')).splitOn ',').filterMap fun word => readWord (String.ofList word)

variable {elements : List Int} {operation : Operation} {word : String}

/-! ## Words -/

/-- A written number is no word that holds another character. -/
theorem toString_ne {c : Char} (h : c ∈ word.toList) (hc : (!c.isDigit && c != '-') = true)
    (n : Int) : toString n ≠ word := by
  rintro rfl
  exact not_mem_toString hc n h

/-- A number that has been written is read back. -/
theorem readWord_toString (n : Int) : readWord (toString n) = some n := by
  have hempty : toString n ≠ "" := by
    intro h
    obtain ⟨c, rest, hn⟩ := exists_toString n
    rw [h] at hn
    cases hn
  have hmissing : toString n ≠ "?" := toString_ne (c := '?') (by simp) rfl n
  have hderef : toString n ≠ "DW_OP_deref" := toString_ne (c := 'D') (by simp) rfl n
  have hplus : toString n ≠ "DW_OP_plus" := toString_ne (c := 'D') (by simp) rfl n
  have hpiece : toString n ≠ "DW_OP_bit_piece" := toString_ne (c := 'D') (by simp) rfl n
  rw [readWord, if_neg (not_or.mpr ⟨hempty, hmissing⟩), if_neg hderef, if_neg hplus,
    if_neg hpiece, readNumber_toString]

/-- An opcode is told by the word it is written as, whether this is a name or a number. -/
theorem readWord_printCode (code : Int) : readWord (printCode code) = some code := by
  unfold printCode
  split
  · next h => simp [readWord, h]
  · split
    · next h => simp [readWord, h]
    · split
      · next h => simp [readWord, h]
      · exact readWord_toString code

/-- No number is told by the sign of a missing argument. -/
theorem readWord_missing : readWord "?" = none := by simp [readWord]

/-- The numbers of an operation are read back from its words, those of missing arguments apart. -/
theorem filterMap_readWord_print (operation : Operation) :
    operation.print.filterMap readWord = operation.elements := by
  have harguments : (operation.arguments.map toString).filterMap readWord =
      operation.arguments := by
    rw [List.filterMap_map, show readWord ∘ toString = some from funext readWord_toString,
      List.filterMap_some]
  have hmissing : ∀ n, (List.replicate n "?").filterMap readWord = [] := fun n => by
    rw [List.filterMap_replicate_of_none readWord_missing]
  rw [Operation.print, List.cons_append, List.filterMap_cons_some (readWord_printCode _),
    List.filterMap_append, harguments, hmissing, List.append_nil]
  rfl

/-- The words of an operation: names of opcodes, signs of missing arguments, and numbers. -/
theorem mem_print (h : word ∈ operation.print) :
    word ∈ ["DW_OP_deref", "DW_OP_plus", "DW_OP_bit_piece", "?"] ∨
      ∃ n : Int, word = toString n := by
  rw [Operation.print, List.cons_append, List.mem_cons, List.mem_append] at h
  rcases h with rfl | hargument | hmissing
  · unfold printCode
    split
    · exact .inl (by simp)
    · split
      · exact .inl (by simp)
      · split
        · exact .inl (by simp)
        · exact .inr ⟨_, rfl⟩
  · obtain ⟨n, _, rfl⟩ := List.mem_map.mp hargument
    exact .inr ⟨n, rfl⟩
  · rw [(List.mem_replicate.mp hmissing).2]
    exact .inl (by simp)

/-- Nothing in a word sets words apart. -/
theorem not_mem_word (h : word ∈ operation.print) : ',' ∉ word.toList ∧ ' ' ∉ word.toList := by
  rcases mem_print h with hname | ⟨n, rfl⟩
  · simp only [List.mem_cons, List.not_mem_nil, or_false] at hname
    rcases hname with rfl | rfl | rfl | rfl <;> decide
  · exact ⟨not_mem_toString rfl n, not_mem_toString rfl n⟩

/-! ## Texts -/

/-- Leaving characters out of texts that are set apart leaves them out of each text, and of what
sets them apart. -/
theorem filter_intercalate {α : Type} (p : α → Bool) (sep : List α) (texts : List (List α)) :
    (sep.intercalate texts).filter p = (sep.filter p).intercalate (texts.map (List.filter p)) := by
  induction texts with
  | nil => simp
  | cons text texts ih =>
    cases texts with
    | nil => simp
    | cons text' texts =>
      rw [List.intercalate_cons_cons, List.filter_append, List.filter_append, ih]
      simp [List.intercalate_cons_cons]

/-- Words that are set apart by commas and blanks are read one by one. -/
theorem filterMap_splitOn_intercalate {words : List String}
    (h : ∀ word ∈ words, ',' ∉ word.toList ∧ ' ' ∉ word.toList) :
    (((", ".intercalate words).toList.filter (· != ' ')).splitOn ',').filterMap
      (fun word => readWord (String.ofList word)) = words.filterMap readWord := by
  have hblank : ((", ".intercalate words).toList.filter (· != ' ')) =
      [','].intercalate (words.map String.toList) := by
    have hwords : (words.map String.toList).map (List.filter (· != ' ')) =
        words.map String.toList := by
      rw [List.map_map]
      refine List.map_congr_left fun word hword => List.filter_eq_self.mpr fun c hc => ?_
      rw [bne_iff_ne]
      rintro rfl
      exact (h word hword).2 hc
    rw [String.toList_intercalate, filter_intercalate, hwords]
    rfl
  rw [hblank]
  cases words with
  | nil => simp [readWord]
  | cons word words =>
    have hcomma : ∀ text ∈ (word :: words).map String.toList, ',' ∉ text := by
      intro text htext
      obtain ⟨word, hword, rfl⟩ := List.mem_map.mp htext
      exact (h word hword).1
    have hword : (fun word => readWord (String.ofList word)) ∘ String.toList = readWord :=
      funext fun word => congrArg readWord String.ofList_toList
    rw [List.splitOn_intercalate _ hcomma (by simp), List.filterMap_map, hword]

/-- A written expression is read back. -/
theorem read_print (elements : List Int) : read (print elements) = elements := by
  have hinside : ((print elements).toList.drop "!DIExpression(".length).dropLast =
      (", ".intercalate ((operations elements).flatMap Operation.print)).toList := by
    rw [print, String.toList_append, String.toList_append, List.append_assoc,
      List.drop_left' (by decide)]
    exact List.dropLast_concat
  have hwords : ∀ word ∈ (operations elements).flatMap Operation.print,
      ',' ∉ word.toList ∧ ' ' ∉ word.toList := by
    intro word hword
    obtain ⟨operation, _, hword⟩ := List.mem_flatMap.mp hword
    exact not_mem_word hword
  unfold read
  dsimp only
  rw [hinside, filterMap_splitOn_intercalate hwords, List.filterMap_flatMap]
  simp only [filterMap_readWord_print]
  exact flatMap_elements_operations elements

/-- Different expressions are written differently: whatever their opcodes are, whether or not an
argument is equal to an opcode, and whether or not arguments are missing. -/
theorem print_eq_print_iff (elements elements' : List Int) :
    print elements = print elements' ↔ elements = elements' := by
  refine ⟨fun h => ?_, congrArg print⟩
  rw [← read_print elements, h, read_print]

/-- The opcode of a piece is written as a number where it is an argument. -/
example : print [plusCode, bitPieceCode, bitPieceCode, -6] =
    "!DIExpression(DW_OP_plus, 157, DW_OP_bit_piece, -6, ?)" := by decide +kernel

end SsaDebugInfo.Expression
