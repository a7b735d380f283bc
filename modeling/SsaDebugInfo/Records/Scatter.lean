import SsaDebugInfo.Modules
import SsaDebugInfo.Records.Migrate

/-!
# Scattering the record of a vector over its elements

A vector built by inserting elements one after another may have a record as a whole. Scattering adds
a record for every element inserted, which describes the bits of the variable that the element
occupies. All elements are checked against the piece of the variable that the vector holds before
the first record is made.
-/

namespace SsaDebugInfo

namespace Store

/-- The insertions that build a value, last one first, at most `fuel` of them. -/
def chainWithin (s : Store) : Nat → Slot → Except Fault (List ValueId)
  | 0, _ => .error .endlessChain
  | fuel + 1, slot =>
    match s.valueIn? slot with
    | none => .ok []
    | some (id, v) =>
      if v.isInsertElement then
        match v.operands with
        | [] => .error .noSuchPosition
        | vector :: _ => (id :: ·) <$> chainWithin s fuel vector
      else .ok []

/-- The insertions that build a value, last one first. A walk that is longer than there are values
goes round in a cycle. -/
def chain (s : Store) (slot : Slot) : Except Fault (List ValueId) :=
  s.chainWithin (s.values.size + 1) slot

/-- The datum that stands for an element index. -/
def indexLiteral (s : Store) (slot : Slot) : Except Fault Literal :=
  match s.valueIn? slot, s.nodeIn? slot with
  | some (_, v), _ =>
    match v.shape with
    | .constant literal => .ok literal
    | .undef => .ok .absent
    | .instruction _ _ i =>
      match i.opcode with
      | .debugValue _ | .ret => .error .notANumber
      | _ => .error .noSuchMember
    | _ => .error .noSuchMember
  | none, some n => if n.handleOf?.isSome then .error .notANumber else .error .noSuchMember
  | none, none => .error .noSuchMember

/-- Where in the variable an element of `width` bits lies: by its index, from the start of the piece
that the vector holds. -/
def pieceOffset (s : Store) (width : Int) (parent : Option Expression.BitPiece)
    (insert : ValueId) : Except Fault Int := do
  let index ← match (s.operandsOf insert)[2]? with
    | none => .error .noSuchPosition
    | some slot => (← s.indexLiteral slot).toInt
  let offset := index * width
  match parent with
  | none => return offset
  | some piece =>
    if offset + width > piece.size then
      .error (.ofExcess index (← s.operandText insert) width offset piece.size)
    else return offset + piece.offset

/-- The bit piece that an expression describes, if it describes one. -/
def parentPiece (s : Store) (expression : Slot) : Except Fault (Option Expression.BitPiece) :=
  match expression with
  | none => .ok none
  | _ => do
    let elements ← found ((s.nodeIn? expression).bind (·.elements?))
    return Expression.bitPiece? elements

end Store

/-- The size of a type under the layout of a record's module, or the default layout. -/
def sizeForRecord (debugValue : ValueId) (type : Ty) : Act Int := do
  match (← get).functionOf? debugValue with
  | none => MonadExcept.ofExcept (Layout.sizeInBits { text := Layout.defaultText } type).1
  | some f =>
    match (← fetch f).module with
    | none => MonadExcept.ofExcept (Layout.sizeInBits { text := Layout.defaultText } type).1
    | some m => sizeUnder (← fetch m).layout type

/-- Adds the record of one inserted element, right after its insertion. -/
def scatterOne (var loc : Slot) (width : Int) (piece : ValueId × Int) : Act Unit := do
  let expression ← create .node (.expression (Expression.ofBitPiece piece.2 width))
  let element ← operandAt piece.1 1
  let _ ← bindValue element { var, expression := .ofNode expression, offset := 0 } loc none
    (.ofValue piece.1)

/-- Adds records for the elements of a vector that has a record. Anything but a vector made by an
insertion is left alone. -/
def scatter (slot : Slot) : Act Unit := do
  match (← get).valueIn? slot with
  | none => pure ()
  | some (id, v) =>
    match v.isInsertElement, v.type.vectorElement? with
    | true, some elementType =>
      match ← findRecord slot with
      | none => pure ()
      | some debugValue =>
        let width ← sizeForRecord debugValue elementType
        let binding ← ask fun s => found ((s.get? debugValue).bind (·.binding?))
        let loc ← ask fun s => found ((s.instruction? debugValue).map (·.loc))
        let parent ← ask fun s => s.parentPiece binding.expression
        let inserts ← ask fun s => s.chain slot
        let offsets ← ask fun s => inserts.mapM (s.pieceOffset width parent)
        (inserts.zip offsets).forM (scatterOne binding.var loc width)
        let text ← ask fun s => do
          return "scattered " ++ (← s.describedName debugValue) ++ " over " ++
            toString inserts.length ++ " elements of " ++ (← s.operandText id)
        record ⟨.records, .debug, text⟩
    | _, _ => pure ()

end SsaDebugInfo
