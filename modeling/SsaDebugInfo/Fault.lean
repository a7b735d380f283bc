import SsaDebugInfo.Text.Numeral

/-!
# Faults

Why an operation on the IR or on its debug metadata does not answer. A fault never undoes what the
operation did before it arose, so the state after a fault is part of the behaviour. Each constructor
is a cause; `Fault.message` is the explanation, empty where the cause has none.

- `Excess`: what is told of an element of a vector that lies outside the piece of the variable that
  the vector holds; its numbers are short enough to be told.
- `Fault.ofExcess`: the fault of such an element, whatever its numbers.
-/

namespace SsaDebugInfo

/-- An element of a vector that lies outside the piece of the variable that the vector holds:
element `index`, put in by `insert`, has `width` bits at `offset`, and the piece has `size` bits. -/
structure Excess where
  index : Int
  insert : String
  width : Int
  offset : Int
  size : Int
  writable : [index, width, offset, size].all Text.Numeral.isWritable = true
  deriving DecidableEq

/-- The element with its piece, in words. -/
def Excess.print (excess : Excess) : String :=
  "element " ++ toString excess.index ++ " of " ++ excess.insert ++ " (" ++ toString excess.width ++
    " bits at offset " ++ toString excess.offset ++ ") in a piece of " ++ toString excess.size ++
    " bits"

/-- The cause of a failed operation. -/
inductive Fault
  /-- A requirement on the arguments, or on the state they are in, is not met. -/
  | unmetRequirement
  /-- The object given, or the missing object, is not of a kind that has the member asked for. -/
  | noSuchMember
  /-- A member was used as what it is not: plain data was called, a call has the wrong number of
  arguments, or a member that is to be called was taken for a list. -/
  | notCallable
  /-- The object looked for is not in the list. -/
  | notInList
  /-- A text that should denote an integer is not a numeral, or an integer that should be written
  has none. -/
  | notANumeral
  /-- A datum that is neither a number nor a text was asked for its integer. -/
  | notANumber
  /-- No element stands at the position asked for. -/
  | noSuchPosition
  /-- The name to release is not registered in the function. -/
  | nameNotRegistered
  /-- The user to remove is not among the uses of the value. -/
  | notAmongUses
  /-- The braces of a message template do not match. -/
  | malformedTemplate
  /-- A message template refers to an argument by position; arguments have names. -/
  | positionalArgument
  /-- A message template names an argument that was not given. -/
  | missingArgument
  /-- The severity of a diagnostic is not a level. -/
  | unknownLevel
  /-- Values of the type, given by its text, take no storage. -/
  | unsizedType (type : String)
  /-- The target does not know how to lay the type out. -/
  | rejectedByTarget
  /-- An element of a vector lies outside the piece of the variable that the vector holds. -/
  | exceedsPiece (excess : Excess)
  /-- The vectors of a construction chain form a cycle, so that walking it does not end. -/
  | endlessChain
  /-- An engine turned the diagnostic with these lines into a failure. -/
  | raised (lines : List String)
  /-- A script uses a label that is bound to nothing. -/
  | unknownLabel (label : String)
  /-- A script asks for a command that does not exist. -/
  | unknownCommand (name : String)
  deriving DecidableEq

namespace Fault

/-- The explanation that goes with a fault. -/
def message : Fault → String
  | unknownLevel => "level must be one of note, warning, error, fatal"
  | unsizedType type => "type " ++ type ++ " has no size"
  | exceedsPiece excess =>
    "Nested bit piece expression exceeds bounds of its parent: " ++ excess.print
  | raised lines => "\n".intercalate lines
  | unknownLabel label => "no label " ++ label
  | unknownCommand name => "no operation " ++ name
  | _ => ""

/-- The fault of an element that lies outside the piece of its vector. It cannot be explained when
one of the numbers is too long to be written, which is a fault of its own. -/
def ofExcess (index : Int) (insert : String) (width offset size : Int) : Fault :=
  if h : [index, width, offset, size].all Text.Numeral.isWritable = true then
    exceedsPiece ⟨index, insert, width, offset, size, h⟩
  else notANumeral

/-- An element outside its piece is told of if all numbers of the message can be written. -/
theorem ofExcess_of_writable {index width offset size : Int} {insert : String}
    (h : [index, width, offset, size].all Text.Numeral.isWritable = true) :
    ofExcess index insert width offset size =
      exceedsPiece ⟨index, insert, width, offset, size, h⟩ :=
  dif_pos h

/-- If one of the numbers is too long, that is the fault, and the element is not told of. -/
theorem ofExcess_of_not_writable {index width offset size : Int} {insert : String}
    (h : ¬ [index, width, offset, size].all Text.Numeral.isWritable = true) :
    ofExcess index insert width offset size = notANumeral :=
  dif_neg h

end Fault

end SsaDebugInfo
