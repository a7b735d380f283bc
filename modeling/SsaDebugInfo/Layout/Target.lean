/-!
# What a layout string says about the target

A layout string is a list of fields separated by dashes. A field starts with a letter that names the
kind of type it speaks of, then holds numbers separated by colons, all in bits. Fields that do not
bear on sizes (byte order, mangling, native widths, the stack) are skipped.

- `p[n]:size:align`: pointers into address space `n`.
- `i<width>:align`, `f<width>:align`, `v<width>:align`: integers, floats and vectors of that width.
- `a:align`: structs and arrays.
-/

namespace SsaDebugInfo.Layout

/-- The size and the alignment of pointers, in bytes of alignment and bits of size. -/
structure PointerRule where
  space : Nat
  size : Nat
  align : Nat

/-- The alignment, in bytes, of the types of one width in bits. -/
structure AlignRule where
  width : Nat
  align : Nat

/-- What is known of the target, starting from what holds when a layout string says nothing. -/
structure Target where
  pointers : List PointerRule := [⟨0, 64, 8⟩]
  ints : List AlignRule := [⟨1, 1⟩, ⟨8, 1⟩, ⟨16, 2⟩, ⟨32, 4⟩, ⟨64, 4⟩]
  floats : List AlignRule := [⟨16, 2⟩, ⟨32, 4⟩, ⟨64, 8⟩, ⟨128, 16⟩]
  vectors : List AlignRule := [⟨64, 8⟩, ⟨128, 16⟩]
  aggregate : Nat := 1

/-- Puts a rule in the place of the one for its width, or in order among the others. -/
def AlignRule.insertInto (rule : AlignRule) : List AlignRule → List AlignRule
  | [] => [rule]
  | r :: rest =>
    if rule.width < r.width then rule :: r :: rest
    else if rule.width = r.width then rule :: rest
    else r :: rule.insertInto rest

/-- Splits a text at each occurrence of a character. -/
def splitAt (mark : Char) : List Char → List (List Char)
  | [] => [[]]
  | c :: rest =>
    match splitAt mark rest with
    | [] => [[c]]
    | part :: parts => if c = mark then [] :: part :: parts else (c :: part) :: parts

/-- The number that decimal digits denote; no digits denote zero. -/
def number (digits : List Char) : Nat :=
  digits.foldl (fun n c => 10 * n + (c.toNat - 48)) 0

namespace Target

/-- What the target is after one more field of its layout string: the letter it starts with, and its
numbers. -/
def withField (target : Target) (letter : Char) (numbers : List Nat) : Target :=
  match letter, numbers with
  | 'p', space :: size :: align :: _ =>
    { target with pointers := ⟨space, size, align / 8⟩ ::
        target.pointers.filter fun rule => rule.space ≠ space }
  | 'i', width :: align :: _ =>
    { target with ints := AlignRule.insertInto ⟨width, align / 8⟩ target.ints }
  | 'f', width :: align :: _ =>
    { target with floats := AlignRule.insertInto ⟨width, align / 8⟩ target.floats }
  | 'v', width :: align :: _ =>
    { target with vectors := AlignRule.insertInto ⟨width, align / 8⟩ target.vectors }
  | 'a', _ :: align :: _ => { target with aggregate := max 1 (align / 8) }
  | _, _ => target

/-- The target that a layout string describes. -/
def ofString (text : String) : Target :=
  (splitAt '-' text.toList).foldl (fun target field =>
    match field with
    | [] => target
    | letter :: rest => target.withField letter ((splitAt ':' rest).map number)) {}

/-- The rule for pointers into an address space, by default that of the first space. -/
def pointerRule (target : Target) (space : Int) : PointerRule :=
  match target.pointers.find? fun rule => (rule.space : Int) = space with
  | some rule => rule
  | none => (target.pointers.find? fun rule => rule.space = 0).getD ⟨0, 64, 8⟩

/-- The alignment of an integer: that of the narrowest width with a rule that is wide enough, else
that of the widest. -/
def intAlign (target : Target) (width : Nat) : Nat :=
  match target.ints.find? fun rule => width ≤ rule.width with
  | some rule => rule.align
  | none => (target.ints.getLast?.map (·.align)).getD 1

/-- The alignment of a float. -/
def floatAlign (target : Target) (width : Nat) : Nat :=
  ((target.floats.find? fun rule => rule.width = width).map (·.align)).getD (width / 8)

/-- The least power of two that is at least `n`, found by doubling `power` at most `fuel` times. -/
def powerAtLeast (n : Nat) : Nat → Nat → Nat
  | power, 0 => power
  | power, fuel + 1 => if n ≤ power then power else powerAtLeast n (2 * power) fuel

/-- The alignment of a vector: by its rule, else its size in whole bytes rounded up to a power of
two. -/
def vectorAlign (target : Target) (width : Nat) : Nat :=
  match target.vectors.find? fun rule => rule.width = width with
  | some rule => rule.align
  | none =>
    let bytes := (width + 7) / 8
    powerAtLeast bytes 1 (Nat.log2 bytes + 1)

end Target

end SsaDebugInfo.Layout
