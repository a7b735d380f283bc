import SsaDebugInfo.Text.Printable

/-!
# Names and texts in quotes

A name made of letters, digits and dots only is written bare. Any other name stands between double
quotes, and a double quote inside it gets a backslash before it; a backslash is left alone.

Text shown as a value stands between quotes too: single ones, unless it holds a single quote and no
double one. Inside, the quote in use and the backslash get a backslash before them, the tab and the
two line breaks are written with their letters, and every other character that is not printable is
written by its code point with two, four or eight hexadecimal digits, the fewest that hold it.

- `Identifier.print`: a name as it is written.
- `Quoted.encode`: a text between its quotes.
- `sorted`: texts in the order in which they are listed.
-/

namespace SsaDebugInfo.Text

/-- The character around quoted names, and around the texts of a metadata node. -/
def doubleQuote : Char := Char.ofNat 34

/-- The character before a double quote inside a quoted name. -/
def backslash : Char := Char.ofNat 92

namespace Identifier

/-- Whether a character may stand in a bare name. -/
def isBareChar (c : Char) : Bool :=
  isAlphanumeric c || c == '.'

/-- The inside of a quoted name: each double quote gets a backslash before it. -/
def escapeQuotes : List Char → List Char
  | [] => []
  | c :: rest => if c = doubleQuote then backslash :: c :: escapeQuotes rest
      else c :: escapeQuotes rest

/-- The written form of a name, character by character. -/
def printChars (name : List Char) : List Char :=
  if name.all isBareChar then name else doubleQuote :: (escapeQuotes name ++ [doubleQuote])

/-- The written form of a name. -/
def print (name : String) : String :=
  String.ofList (printChars name.toList)

end Identifier

/-- The usual quote around quoted text. -/
def singleQuote : Char := Char.ofNat 39

namespace Quoted

/-- The quote put around a text. -/
def mark (text : List Char) : Char :=
  if text.contains singleQuote && !text.contains doubleQuote then doubleQuote else singleQuote

/-- The hexadecimal digits of a number, padded with zeros to a width. -/
def hex (width n : Nat) : List Char :=
  let digits := Nat.toDigits 16 n
  List.replicate (width - digits.length) '0' ++ digits

/-- How one character is written between the quotes `quote`. -/
def encodeChar (quote c : Char) : List Char :=
  if c = quote ∨ c = backslash then [backslash, c]
  else if c = '\t' then [backslash, 't']
  else if c = '\n' then [backslash, 'n']
  else if c = '\r' then [backslash, 'r']
  else if isPrintable c then [c]
  else if c.toNat ≤ 0xFF then backslash :: 'x' :: hex 2 c.toNat
  else if c.toNat ≤ 0xFFFF then backslash :: 'u' :: hex 4 c.toNat
  else backslash :: 'U' :: hex 8 c.toNat

/-- A text between its quotes. -/
def encode (text : String) : String :=
  let quote := mark text.toList
  String.ofList (quote :: (text.toList.flatMap (encodeChar quote) ++ [quote]))

end Quoted

/-- The texts in the order of their code points; a text that begins another comes first. -/
def sorted (texts : List String) : List String :=
  (texts.toArray.insertionSort fun a b => decide (a < b)).toList

end SsaDebugInfo.Text
