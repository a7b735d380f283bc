import SsaDebugInfo.Records.Migrate
import SsaDebugInfo.Script.Outcome

/-!
# Making values and functions

An instruction gets its location after it is made; a label that is bound to nothing is a fault even
then.
-/

namespace SsaDebugInfo.Script

/-- Makes an instruction of the given form. -/
def makeNew (labels : Labels) (name : String) : NewInstruction → Act ValueId
  | .plain operands type => do
    let operands ← labels.lookAll operands
    makeInstruction .plain operands (← formType type) name
  | .arith operation lhs rhs => do
    makeArith operation (← labels.look lhs) (← labels.look rhs) name
  | .phi type => do makePhi (← formType type) name
  | .select condition ifTrue ifFalse => do
    makeSelect (← labels.look condition) (← labels.look ifTrue) (← labels.look ifFalse) name
  | .insertElement vector element index => do
    makeInsertElement (← labels.look vector) (← labels.look element) (← labels.look index) name
  | .extractElement vector index => do
    makeExtractElement (← labels.look vector) (← labels.look index) name
  | .branch target => do makeBranch (← labels.look target)
  | .branchIf condition ifTrue ifFalse => do
    makeBranchIf (← labels.look condition) (← labels.look ifTrue) (← labels.look ifFalse)
  | .ret value => do makeReturn (← labels.look value)
  | .debugValue wrapper var expression offset => do
    let wrapper ← labels.look wrapper
    let var ← labels.look var
    let expression ← labels.look expression
    makeDebugValue wrapper { var, expression, offset } name

/-- Makes a value or a function. -/
def performMake (labels : Labels) : NewValue → Act Outcome
  | .constant literal type context => do
    let type ← formType type
    let context ← labels.look context >>= optionally contextIn
    return .creation (.value (← makeConstant literal type context))
  | .undef type context => do
    let type ← formType type
    let context ← labels.look context >>= optionally contextIn
    return .creation (.value (← makeUndef type context))
  | .argument name type => do return .creation (.value (← makeArgument (← formType type) name))
  | .global name type initializer => do
    let type ← formType type
    return .creation (.value (← makeGlobal type name (← labels.look initializer)))
  | .function name result arguments subprogram context => do
    let arguments ← labels.lookAll arguments
    let result ← formType result
    let subprogram ← labels.look subprogram
    let context ← labels.look context >>= optionally contextIn
    return .creation (.function (← makeFunction name result arguments subprogram context))
  | .block name instructions => do
    return .creation (.value (← makeBlock name (← labels.lookAll instructions)))
  | .user operands type name => do
    let operands ← labels.lookAll operands
    return .creation (.value (← makeUser operands (← formType type) name))
  | .instruction form name loc => do
    let id ← makeNew labels name form
    let loc ← labels.look loc
    update id (·.mapInstruction fun i => { i with loc })
    return .creation (.value id)
  | .bind value var expression loc offset place => do
    let value ← labels.look value
    let var ← labels.look var
    let expression ← labels.look expression
    let loc ← labels.look loc
    match place with
    | .detached =>
      return .creation (.value (← makeRecord value { var, expression, offset } loc))
    | .beside before after =>
      let before ← labels.look before
      let after ← labels.look after
      return .creation (.value (← bindValue value { var, expression, offset } loc before after))

end SsaDebugInfo.Script
