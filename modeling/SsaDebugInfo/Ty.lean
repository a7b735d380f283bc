/-!
# Types of values

The types that IR values have: scalars, pointers with or without a known target, vectors, arrays,
structs and functions, and the types of blocks, of metadata operands and of nothing at all.

- `Ty.print`: the written form of a type.
- `Ty.agrees`: when two values count as having one type. It is structural, with two exceptions: a
  pointer without a target agrees with every pointer into its address space, so that agreement is
  not transitive, and a label type agrees with itself only.
- `Ty.admissible`: which types can be formed.
- `Ty.withFreshLabels`: a written type as a type of its own, each label type in it a new one.
-/

namespace SsaDebugInfo

/-- The type of a value. -/
inductive Ty
  | int (width : Int)
  | half
  | float
  | double
  | void
  | metadata
  /-- The type of a block. Each block has one of its own, told apart by `tag`. -/
  | label (tag : Nat)
  /-- A pointer into an address space, to data of any type. -/
  | pointer (space : Int)
  | pointerTo (target : Ty) (space : Int)
  | vector (count : Int) (element : Ty)
  | array (count : Int) (element : Ty)
  | struct (fields : List Ty) (packed : Bool)
  | function (result : Ty) (parameters : List Ty) (variadic : Bool)
  deriving Inhabited

namespace Ty

/-- The type of truth values. -/
abbrev bool : Ty := int 1

/-- The address space of a pointer as it is written; the first space is not. -/
def printSpace (space : Int) : String :=
  if space = 0 then "" else " addrspace(" ++ toString space ++ ")"

mutual

/-- The written form of a type. -/
def print : Ty → String
  | int width => "i" ++ toString width
  | half => "half"
  | float => "float"
  | double => "double"
  | void => "void"
  | metadata => "metadata"
  | label _ => "label"
  | pointer space => "ptr" ++ printSpace space
  | pointerTo target space => print target ++ printSpace space ++ "*"
  | vector count element => "<" ++ toString count ++ " x " ++ print element ++ ">"
  | array count element => "[" ++ toString count ++ " x " ++ print element ++ "]"
  | struct fields packed =>
    let text := "\x7b" ++ ", ".intercalate (printAll fields) ++ "\x7d"
    if packed then "<" ++ text ++ ">" else text
  | function result parameters variadic =>
    print result ++ " (" ++
      ", ".intercalate (printAll parameters ++ if variadic then ["..."] else []) ++ ")"

/-- The written forms of several types. -/
def printAll : List Ty → List String
  | [] => []
  | t :: rest => print t :: printAll rest

end

/-- A vector is written as the number of its elements and their type. -/
theorem toList_print_vector (n : Int) (t : Ty) : (vector n t).print.toList =
    '<' :: ((toString n).toList ++ ' ' :: 'x' :: ' ' :: t.print.toList) ++ ['>'] := by
  simp [print, String.toList_append]

mutual

/-- Whether two values of these types count as having one type. -/
def agrees : Ty → Ty → Bool
  | int w, int w' => w == w'
  | half, half | float, float | double, double | void, void | metadata, metadata => true
  | label tag, label tag' => tag == tag'
  | pointer s, pointer s' | pointer s, pointerTo _ s' | pointerTo _ s, pointer s' => s == s'
  | pointerTo t s, pointerTo t' s' => agrees t t' && s == s'
  | vector n t, vector n' t' => agrees t t' && n == n'
  | array n t, array n' t' => agrees t t' && n == n'
  | struct ts p, struct ts' p' => agreesAll ts ts' && p == p'
  | function r ts v, function r' ts' v' => agrees r r' && agreesAll ts ts' && v == v'
  | _, _ => false

/-- Agreement of types in turn, and of their number. -/
def agreesAll : List Ty → List Ty → Bool
  | [], [] => true
  | t :: ts, t' :: ts' => agrees t t' && agreesAll ts ts'
  | _, _ => false

end

mutual

/-- Whether the type can be formed: no width is negative and nothing points to `void`. -/
def admissible : Ty → Bool
  | int width => 0 ≤ width
  | pointerTo void _ => false
  | pointerTo target _ => admissible target
  | vector _ element | array _ element => admissible element
  | struct fields _ => admissibleAll fields
  | function result parameters _ => admissible result && admissibleAll parameters
  | _ => true

/-- Whether all the types can be formed. -/
def admissibleAll : List Ty → Bool
  | [] => true
  | t :: rest => admissible t && admissibleAll rest

end

mutual

/-- The type with new label types: `next` is the first unused tag, before and after. -/
def withFreshLabels (next : Nat) : Ty → Ty × Nat
  | label _ => (label next, next + 1)
  | pointerTo target space =>
    let (target, next) := withFreshLabels next target
    (pointerTo target space, next)
  | vector count element =>
    let (element, next) := withFreshLabels next element
    (vector count element, next)
  | array count element =>
    let (element, next) := withFreshLabels next element
    (array count element, next)
  | struct fields packed =>
    let (fields, next) := withFreshLabelsAll next fields
    (struct fields packed, next)
  | function result parameters variadic =>
    let (result, next) := withFreshLabels next result
    let (parameters, next) := withFreshLabelsAll next parameters
    (function result parameters variadic, next)
  | other => (other, next)

/-- Several types with new label types. -/
def withFreshLabelsAll (next : Nat) : List Ty → List Ty × Nat
  | [] => ([], next)
  | t :: rest =>
    let (t, next) := withFreshLabels next t
    let (rest, next) := withFreshLabelsAll next rest
    (t :: rest, next)

end

/-- The element type of a vector type. -/
def vectorElement? : Ty → Option Ty
  | vector _ element => some element
  | _ => none

/-- Whether the type is that of values that hold nothing. -/
def isVoid : Ty → Bool
  | void => true
  | _ => false

end Ty

end SsaDebugInfo
