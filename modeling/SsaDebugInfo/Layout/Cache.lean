import SsaDebugInfo.Layout.Size
import SsaDebugInfo.Text.Quoted

/-!
# Layouts that remember sizes

A layout is a layout string together with the sizes found so far, under the written form of each
type. A vector's size is found through its element's, which is remembered too; a fault is not.

- `Layout.query`: the size of a type with what was remembered before and after.
- `Layout.sizeInBits`: the same for a layout as a whole.
-/

namespace SsaDebugInfo

/-- A layout string and the sizes found under it. -/
structure Layout where
  text : String
  cache : List (String × Int) := []

namespace Layout

/-- The layout of a module that names none: little-endian, with pointers of 64 bits. -/
def defaultText : String := "e-p:64:64"

/-- The target that the layout describes. -/
def target (layout : Layout) : Target :=
  Target.ofString layout.text

/-- What is remembered once a size has been found. -/
def remember (key : String) : Except Fault Int × List (String × Int) →
    Except Fault Int × List (String × Int)
  | (.ok bits, cache) => (.ok bits, cache ++ [(key, bits)])
  | failed => failed

/-- The size of a type, given how the target counts bytes, and the sizes remembered after the
query. -/
def query (bytes : Ty → Option Nat) : Ty → List (String × Int) →
    Except Fault Int × List (String × Int)
  | t@(.vector count element), cache =>
    match cache.lookup t.print with
    | some bits => (.ok bits, cache)
    | none =>
      let (result, cache) := query bytes element cache
      remember t.print (result.map (count * ·), cache)
  | t, cache =>
    match cache.lookup t.print with
    | some bits => (.ok bits, cache)
    | none => remember t.print (t.leafSizeInBits bytes, cache)

/-- The size of a type in bits, and the layout after the query. -/
def sizeInBits (layout : Layout) (t : Ty) : Except Fault Int × Layout :=
  let (result, cache) := query layout.target.bytes? t layout.cache
  (result, { layout with cache })

/-- The type whose size is that of pointers. -/
def pointerType : Ty := .pointerTo (.int 8) 0

/-- How a layout is shown. -/
def print (layout : Layout) : String :=
  "<dbgprop.compiler.datalayout.DataLayout " ++ Text.Quoted.encode layout.text ++ ">"

end Layout

end SsaDebugInfo
