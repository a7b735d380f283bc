import SsaDebugInfo.Fault
import SsaDebugInfo.Text.Numeral
import SsaDebugInfo.Text.Quoted

/-!
# Literals

The data that a constant carries and that a message may be filled in with. `Literal.print` is the
written form of a datum; `Literal.toInt` reads an element index off it. A datum is never computed:
its integers have been read off numerals (`Text.Numeral`), so none of them is too long to be written
again.
-/

namespace SsaDebugInfo

/-- A plain datum. -/
inductive Literal
  | absent
  | flag (value : Bool)
  | integer (value : Int)
  /-- The decimal fraction `coefficient * 10 ^ (-places)`, or its negative. -/
  | decimal (negative : Bool) (coefficient places : Nat)
  | text (value : String)
  | list (items : List Literal)
  | record (fields : List (String × Literal))
  deriving Inhabited

namespace Literal

/-- The exponent of a decimal fraction in scientific form: a sign and at least two digits. -/
def printExponent (exponent : Int) : String :=
  let digits := toString exponent.natAbs
  (if exponent < 0 then "e-" else "e+") ++ (if digits.length < 2 then "0" ++ digits else digits)

/-- A decimal fraction whose significant digits are `digits` and whose point stands after the first
`point` of them. It is written positionally, with a digit on both sides of the point, while the
point is at most sixteen places to the right and less than four places to the left of the first
digit; beyond that it is written with an exponent. -/
def printFraction (digits : List Char) (point : Int) : String :=
  if point > 16 ∨ point ≤ -4 then
    let tail := digits.drop 1
    String.ofList (digits.take 1) ++ (if tail.isEmpty then "" else "." ++ String.ofList tail) ++
      printExponent (point - 1)
  else if point ≤ 0 then
    "0." ++ String.ofList (List.replicate (-point).toNat '0' ++ digits)
  else
    let whole := digits.take point.toNat
    let tail := digits.drop point.toNat
    String.ofList (whole ++ List.replicate (point.toNat - whole.length) '0') ++ "." ++
      (if tail.isEmpty then "0" else String.ofList tail)

/-- A decimal fraction, without the zeros that do not count. -/
def printDecimal (negative : Bool) (coefficient places : Nat) : String :=
  let sign := if negative then "-" else ""
  if coefficient = 0 then sign ++ "0.0"
  else
    let all := Nat.toDigits 10 coefficient
    let digits := (all.reverse.dropWhile (· == '0')).reverse
    sign ++ printFraction digits (all.length - places)

mutual

/-- The written form of a datum. -/
def print : Literal → String
  | absent => "None"
  | flag true => "True"
  | flag false => "False"
  | integer n => toString n
  | decimal negative coefficient places => printDecimal negative coefficient places
  | text s => Text.Quoted.encode s
  | list items => "[" ++ ", ".intercalate (printItems items) ++ "]"
  | record fields => "\x7b" ++ ", ".intercalate (printFields fields) ++ "\x7d"

/-- The written forms of the items of a list. -/
def printItems : List Literal → List String
  | [] => []
  | item :: rest => print item :: printItems rest

/-- The written forms of the fields of a record, in their order. -/
def printFields : List (String × Literal) → List String
  | [] => []
  | (name, item) :: rest => (Text.Quoted.encode name ++ ": " ++ print item) :: printFields rest

end

/-- How a datum is filled into a message: a text stands for itself. -/
def display : Literal → String
  | text s => s
  | other => other.print

/-- The integer a datum stands for: truth values count zero or one, a fraction loses its decimals,
and a text is read as a numeral. -/
def toInt : Literal → Except Fault Int
  | flag value => .ok (if value then 1 else 0)
  | integer n => .ok n
  | decimal negative coefficient places =>
    let whole : Int := (coefficient / Nat.pow 10 places : Nat)
    .ok (if negative then -whole else whole)
  | text s => (Text.Numeral.read? s).elim (.error .notANumeral) .ok
  | absent | list _ | record _ => .error .notANumber

end Literal

end SsaDebugInfo
