import SsaDebugInfo.Fault

/-!
# Location expressions

An expression qualifies where a variable lives: it is a list of numbers, read from the left as
operations, an opcode followed by as many arguments as the opcode takes. A bit piece says that only
some bits of the variable are described.

- `Expression.operations`: the operations that a list of numbers reads as; the last one may lack
  arguments.
- `Expression.print`, `Expression.write`: the written form, operation by operation, and whether it
  can be written.
- `Expression.bitPiece?`: the piece that an expression ends in, found by looking at a fixed place
  from its end.
-/

namespace SsaDebugInfo.Expression

/-- The opcode that follows the address in the variable's place. -/
def derefCode : Int := 0x06

/-- The opcode that adds its argument. -/
def plusCode : Int := 0x22

/-- The opcode that selects bits: its arguments are their offset and their number. -/
def bitPieceCode : Int := 0x9d

/-- How many arguments an opcode takes. -/
def arity (code : Int) : Nat :=
  if code = plusCode then 1 else if code = bitPieceCode then 2 else 0

/-- The written form of an opcode: its name, if it has one. -/
def printCode (code : Int) : String :=
  if code = derefCode then "DW_OP_deref"
  else if code = plusCode then "DW_OP_plus"
  else if code = bitPieceCode then "DW_OP_bit_piece"
  else toString code

/-- An opcode with the arguments that follow it, all of them unless the expression ends first. -/
structure Operation where
  code : Int
  arguments : List Int
  deriving DecidableEq

namespace Operation

/-- Whether no argument is missing. -/
def isComplete (operation : Operation) : Bool :=
  operation.arguments.length == arity operation.code

/-- The written form of an operation: a question mark stands for each missing argument. -/
def print (operation : Operation) : List String :=
  printCode operation.code :: operation.arguments.map toString ++
    List.replicate (arity operation.code - operation.arguments.length) "?"

end Operation

/-- The operations that a list of numbers reads as. -/
def operations : List Int → List Operation
  | [] => []
  | [code] => [⟨code, []⟩]
  | [code, a] => if arity code = 0 then ⟨code, []⟩ :: operations [a] else [⟨code, [a]⟩]
  | code :: a :: b :: rest =>
    if arity code = 0 then ⟨code, []⟩ :: operations (a :: b :: rest)
    else if arity code = 1 then ⟨code, [a]⟩ :: operations (b :: rest)
    else ⟨code, [a, b]⟩ :: operations rest

/-- The numbers of an operation. -/
def Operation.elements (operation : Operation) : List Int :=
  operation.code :: operation.arguments

/-- The written form of an expression. -/
def print (elements : List Int) : String :=
  "!DIExpression(" ++ ", ".intercalate ((operations elements).flatMap Operation.print) ++ ")"

/-- The written form of an expression, unless one of its numbers is too long. -/
def write (elements : List Int) : Except Fault String :=
  if elements.all Text.Numeral.isWritable then .ok (print elements) else .error .notANumeral

/-- The bits that a piece selects. -/
structure BitPiece where
  offset : Int
  size : Int
  deriving DecidableEq

/-- The bit piece that the last three numbers of an expression stand for, if the first of them is
the opcode of a bit piece. -/
def bitPiece? : List Int → Option BitPiece
  | [] => none
  | [code, offset, size] => if code = bitPieceCode then some ⟨offset, size⟩ else none
  | _ :: rest => bitPiece? rest

/-- The expression that selects the given bits of a variable. -/
def ofBitPiece (offset size : Int) : List Int :=
  [bitPieceCode, offset, size]

/-- Reading an expression as operations loses none of its numbers. -/
theorem flatMap_elements_operations (elements : List Int) :
    (operations elements).flatMap Operation.elements = elements := by
  fun_induction operations elements <;> simp_all [Operation.elements]

@[simp] theorem bitPiece?_ofBitPiece (offset size : Int) :
    bitPiece? (ofBitPiece offset size) = some ⟨offset, size⟩ := rfl

end SsaDebugInfo.Expression
