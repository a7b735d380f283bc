import SsaDebugInfo.Text.Alphanumeric

/-!
# Numerals

A numeral is an optional sign and decimal digits of any script, with single underscores allowed
between two digits and blanks around the whole. Each script has ten decimal digits in a row, zero
first. The blanks are the space, the five controls that move the carriage, and the separators beyond
ASCII. A numeral has `Numeral.maxDigits` digits at most: no longer one is read, and no integer is
written that would need more.

- `Numeral.read?`: the integer that a text denotes.
- `Numeral.isWritable`: whether an integer is short enough to be written.
-/

namespace SsaDebugInfo.Text

/-- The zeros of the decimal scripts of Unicode 14. -/
def decimalZeros : List Nat :=
  [0x30, 0x660, 0x6F0, 0x7C0, 0x966, 0x9E6, 0xA66, 0xAE6, 0xB66, 0xBE6, 0xC66, 0xCE6, 0xD66, 0xDE6,
    0xE50, 0xED0, 0xF20, 0x1040, 0x1090, 0x17E0, 0x1810, 0x1946, 0x19D0, 0x1A80, 0x1A90, 0x1B50,
    0x1BB0, 0x1C40, 0x1C50, 0xA620, 0xA8D0, 0xA900, 0xA9D0, 0xA9F0, 0xAA50, 0xABF0, 0xFF10, 0x104A0,
    0x10D30, 0x11066, 0x110F0, 0x11136, 0x111D0, 0x112F0, 0x11450, 0x114D0, 0x11650, 0x116C0,
    0x11730, 0x118E0, 0x11950, 0x11C50, 0x11D50, 0x11DA0, 0x16A60, 0x16AC0, 0x16B50, 0x1D7CE,
    0x1D7D8, 0x1D7E2, 0x1D7EC, 0x1D7F6, 0x1E140, 0x1E2F0, 0x1E950, 0x1FBF0]

/-- The value of a decimal digit, whatever its script. -/
def digitValue? (c : Char) : Option Nat :=
  (decimalZeros.find? fun z => z ≤ c.toNat && c.toNat < z + 10).map (c.toNat - ·)

/-- The blanks that may surround a numeral. -/
def blankRanges : CharClass :=
  [(0x9, 0xD), (0x20, 0x20), (0x85, 0x85), (0xA0, 0xA0), (0x1680, 0x1680), (0x2000, 0x200A),
    (0x2028, 0x2029), (0x202F, 0x202F), (0x205F, 0x205F), (0x3000, 0x3000)]

/-- Whether a character is a blank. -/
def isBlank (c : Char) : Bool :=
  blankRanges.has c.toNat

namespace Numeral

/-- The longest numeral, in digits. -/
def maxDigits : Nat := 4300

/-- Whether an integer can be written: it needs no more digits than the longest numeral has. -/
@[irreducible] def isWritable (n : Int) : Bool :=
  n.natAbs < Nat.pow 10 maxDigits

/-- The digits of a numeral after its first digit, with the underscores between them left out;
`none` when an underscore is doubled or final, or another character stands among them. -/
def digitsAfter? : List Char → Option (List Nat)
  | [] => some []
  | '_' :: c :: rest => do return (← digitValue? c) :: (← digitsAfter? rest)
  | c :: rest => do return (← digitValue? c) :: (← digitsAfter? rest)

/-- The digits of an unsigned numeral. -/
def digits? : List Char → Option (List Nat)
  | [] => none
  | c :: rest => do return (← digitValue? c) :: (← digitsAfter? rest)

/-- The number with the given decimal digits, most significant first. -/
def ofDigits (digits : List Nat) : Nat :=
  digits.foldl (fun n d => 10 * n + d) 0

/-- The text without the blanks around it. -/
def trim (text : List Char) : List Char :=
  ((text.dropWhile isBlank).reverse.dropWhile isBlank).reverse

/-- The magnitude of an unsigned numeral. -/
def magnitude? (text : List Char) : Option Nat := do
  let digits ← digits? text
  if digits.length ≤ maxDigits then some (ofDigits digits) else none

/-- The integer that a text denotes, if it is a numeral. -/
def read? (text : String) : Option Int :=
  match trim text.toList with
  | '-' :: rest => (magnitude? rest).map fun n => -(n : Int)
  | '+' :: rest => (magnitude? rest).map fun n => (n : Int)
  | rest => (magnitude? rest).map fun n => (n : Int)

end Numeral

end SsaDebugInfo.Text
