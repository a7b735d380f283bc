import SsaDebugInfo.Fault
import SsaDebugInfo.Layout.Target
import SsaDebugInfo.Ty

/-!
# The storage that values take

The size of a value in bits, not counting padding around it: integers take their width, a vector
takes its elements one beside another, and anything else takes as many whole bytes as the target
says. How the target counts is a parameter, `bytes`, which answers `none` for a type that the target
rejects.

- `Ty.sizeInBits`: the size of a value, given how the target counts bytes.
- `Ty.extent?`: size and alignment by the conventions of targets; `none` for a type that they reject
  as part of another. A pointer is rejected with the type that it points to, and nothing points to a
  pointer that has no target itself. Sizes are exact: no number of bits wraps round at 64 binary
  digits.
- `Layout.Target.bytes?`: how a target counts bytes by these conventions.
-/

namespace SsaDebugInfo.Layout

/-- The size of a type in bits and its alignment in bytes. -/
structure Extent where
  bits : Nat
  align : Nat

namespace Extent

/-- The least multiple of `align` that is at least `n`. -/
def roundUp (n align : Nat) : Nat :=
  (n + (align - 1)) / align * align

/-- The bytes from one element to the next in an array: whole bytes, up to the alignment. -/
def stride (extent : Extent) : Nat :=
  roundUp ((extent.bits + 7) / 8) extent.align

/-- The bytes that fields take one after another from an offset, each at its alignment unless they
are packed. -/
def endOfFields (packed : Bool) (offset : Nat) : List Extent → Nat
  | [] => offset
  | field :: rest =>
    let start := if packed then offset else roundUp offset field.align
    endOfFields packed (start + field.stride) rest

/-- The extent of a struct: its fields in order, up to the largest of their alignments. -/
def ofFields (aggregate : Nat) (packed : Bool) (fields : List Extent) : Extent :=
  let align := if packed then 1 else fields.foldl (fun a field => max a field.align) 1
  ⟨8 * roundUp (endOfFields packed 0 fields) align, if packed then 1 else max aggregate align⟩

end Extent

/-- The extent of pointers into an address space. -/
def Target.pointerExtent (target : Target) (space : Int) : Extent :=
  let rule := target.pointerRule space
  ⟨rule.size, rule.align⟩

end SsaDebugInfo.Layout

namespace SsaDebugInfo.Ty

open Layout

/-- The widest integer that targets accept. -/
def maxIntWidth : Int := Int.pow 2 23

/-- The longest vector that targets accept. -/
def maxVectorCount : Int := Int.pow 2 32 - 1

/-- The longest array that targets accept. -/
def maxArrayCount : Int := Int.pow 2 64 - 1

/-- Whether targets accept vectors of the type. -/
def isScalar : Ty → Bool
  | int _ | half | float | double | pointer _ | pointerTo _ _ => true
  | _ => false

mutual

/-- The extent of a type by the conventions of the target, if the target accepts it. -/
def extent? (target : Target) : Ty → Option Extent
  | int width =>
    if 0 < width ∧ width ≤ maxIntWidth then some ⟨width.toNat, target.intAlign width.toNat⟩
    else none
  | half => some ⟨16, target.floatAlign 16⟩
  | float => some ⟨32, target.floatAlign 32⟩
  | double => some ⟨64, target.floatAlign 64⟩
  | pointer space => some (target.pointerExtent space)
  | pointerTo (pointer _) _ => none
  | pointerTo (function result parameters _) space =>
    if (result.isVoid || (extent? target result).isSome) && takesAll target parameters then
      some (target.pointerExtent space)
    else none
  | pointerTo pointee space => do
    let _ ← extent? target pointee
    return target.pointerExtent space
  | vector count element =>
    if 0 < count ∧ count ≤ maxVectorCount ∧ element.isScalar then do
      let extent ← extent? target element
      let bits := count.toNat * extent.bits
      return ⟨bits, target.vectorAlign bits⟩
    else none
  | array count element =>
    if 0 ≤ count ∧ count ≤ maxArrayCount then do
      let extent ← extent? target element
      return ⟨8 * (count.toNat * extent.stride), extent.align⟩
    else none
  | struct fields packed => do
    let extents ← extents? target fields
    return Extent.ofFields target.aggregate packed extents
  | void | metadata | label _ | function _ _ _ => none

/-- The extents of several types. -/
def extents? (target : Target) : List Ty → Option (List Extent)
  | [] => some []
  | t :: rest => do return (← extent? target t) :: (← extents? target rest)

/-- Whether the target accepts functions with parameters of these types. -/
def takesAll (target : Target) : List Ty → Bool
  | [] => true
  | metadata :: rest => takesAll target rest
  | t :: rest => (extent? target t).isSome && takesAll target rest

end

/-- The size of a value that is not built from elements of its own size: unsized types are told
apart from those that the target rejects. -/
def leafSizeInBits (bytes : Ty → Option Nat) : Ty → Except Fault Int
  | int width => .ok width
  | t@void | t@metadata | t@(label _) | t@(function _ _ _) => .error (.unsizedType t.print)
  | t =>
    match bytes t with
    | some n => .ok (8 * n : Nat)
    | none => .error .rejectedByTarget

/-- The size of a value in bits, not counting padding around it. -/
def sizeInBits (bytes : Ty → Option Nat) : Ty → Except Fault Int
  | vector count element => do return count * (← sizeInBits bytes element)
  | t => leafSizeInBits bytes t

end SsaDebugInfo.Ty

namespace SsaDebugInfo.Layout

/-- The bytes that a value takes by the conventions of the target. -/
def Target.bytes? (target : Target) (t : Ty) : Option Nat :=
  (t.extent? target).map (·.stride)

end SsaDebugInfo.Layout
