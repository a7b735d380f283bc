import SsaDebugInfo.Text.Quoted

/-!
# Reading names back

A written name can be read back. One that starts with a double quote was put between quotes: what
stands between them is the name once the character in front of each double quote is dropped. That
character is the backslash that was written for the quote, whatever backslashes the name has of its
own, since a double quote never follows another. Every other written name is the name itself.

- `Identifier.unescapeQuotes`, `Identifier.readChars`: the reading.
- `Identifier.readChars_printChars`: a written name is read back.
- `Identifier.print_inj`: different names are written differently.
-/

namespace SsaDebugInfo.Text.Identifier

/-- The inside of a quoted name without the backslashes: the character in front of each double quote
is dropped. -/
def unescapeQuotes : List Char → List Char
  | [] => []
  | c :: rest => if rest.head? = some doubleQuote then unescapeQuotes rest
      else c :: unescapeQuotes rest

/-- The name that a text is the written form of. -/
def readChars : List Char → List Char
  | [] => []
  | c :: rest => if c = doubleQuote then unescapeQuotes rest.dropLast else c :: rest

theorem isBareChar_doubleQuote : isBareChar doubleQuote = false := by decide +kernel

/-- The inside of a quoted name does not start with a double quote: a backslash stands in front. -/
theorem head?_escapeQuotes (name : List Char) :
    (escapeQuotes name).head? ≠ some doubleQuote := by
  cases name with
  | nil => simp [escapeQuotes]
  | cons c rest =>
    rw [escapeQuotes]
    split
    · rw [List.head?_cons]
      decide
    · next hc => simpa using hc

/-- The inside of a quoted name is read back: what was written first for each character of the name
is followed by a double quote if and only if it is the backslash in front of one. -/
theorem unescapeQuotes_escapeQuotes (name : List Char) :
    unescapeQuotes (escapeQuotes name) = name := by
  induction name with
  | nil => rfl
  | cons c rest ih =>
    have hkept : unescapeQuotes (c :: escapeQuotes rest) = c :: rest := by
      rw [unescapeQuotes, if_neg (head?_escapeQuotes rest), ih]
    rw [escapeQuotes]
    split
    · next hc =>
      rw [unescapeQuotes, List.head?_cons, if_pos (congrArg some hc), hkept]
    · exact hkept

/-- A written name is read back. -/
theorem readChars_printChars (name : List Char) : readChars (printChars name) = name := by
  unfold printChars
  split
  · next hbare =>
    cases name with
    | nil => rfl
    | cons c rest =>
      have hc : c ≠ doubleQuote := by
        rintro rfl
        have hquote := List.all_eq_true.mp hbare _ List.mem_cons_self
        rw [isBareChar_doubleQuote] at hquote
        cases hquote
      rw [readChars, if_neg hc]
  · rw [readChars, if_pos rfl, List.dropLast_concat, unescapeQuotes_escapeQuotes]

/-- Different names are written differently. -/
theorem print_inj {a b : String} (h : print a = print b) : a = b := by
  have hread : ∀ name, readChars (print name).toList = name.toList := by
    intro name
    rw [print, String.toList_ofList, readChars_printChars]
  rw [← String.toList_inj, ← hread a, ← hread b, h]

/-- A quote and a backslash in front of one are kept apart, and so is an empty name from a name of
two quotes. -/
example : ["\"", "\\\"", "", "\"\""].map print =
    ["\"\\\"\"", "\"\\\\\"\"", "", "\"\\\"\\\"\""] := by decide +kernel

end SsaDebugInfo.Text.Identifier
