import SsaDebugInfo.Ir.Build

/-!
# Operations of a script

A script works on objects by label. An operation makes an object, changes one, or asks about one; a
command is an operation together with the label that its object gets and the place that it enters,
or one of the few things that are not operations on the store.
-/

namespace SsaDebugInfo.Script

/-- A name for an object. -/
abbrev Label := String

/-- How an operation is given an object: by its label, or not at all. -/
abbrev Given := Option Label

/-- An instruction to make. -/
inductive NewInstruction
  | plain (operands : List Given) (type : Ty)
  | arith (operation : String) (lhs rhs : Given)
  | phi (type : Ty)
  | select (condition ifTrue ifFalse : Given)
  | insertElement (vector element index : Given)
  | extractElement (vector index : Given)
  | branch (target : Given)
  | branchIf (condition ifTrue ifFalse : Given)
  | ret (value : Given)
  | debugValue (wrapper var expression : Given) (offset : Int)

/-- The layout that a new module gets. -/
inductive LayoutChoice
  | standard
  | described (text : String)
  | shared (layout : Given)

/-- What a diagnostic is emitted about. -/
inductive Subject
  | instruction | function | global | program | resource
  deriving DecidableEq

/-- How the level of an emitted diagnostic is chosen: by an argument, or by the name of the request,
as far as there is one for the level. -/
inductive LevelChoice
  | argument (level : Option String)
  | named (level : String)

/-- Where a bound record is put. -/
inductive RecordPlace
  | detached
  | beside (before after : Given)

/-- How a module's index is asked for: the one that its state remembers, or a new one. -/
inductive IndexChoice
  | remembered
  | new (times : Nat)

/-- Makes metadata nodes and contexts, or asks about a node. -/
inductive MetadataOperation
  | context
  | file (filename directory : String)
  | node (isScope : Bool)
  | unit (file : Given) (producer : String) (globals subprograms : List Given)
  | extendUnit (unit : Given) (globals subprograms : List Given)
  | subprogram (name : String) (file : Given) (line : Int) (scope : Given)
      (linkage : Option String)
  | location (line column : Int) (scope inlinedAt : Given)
  | localVariable (name : String) (scope file : Given) (line argument : Int)
  | globalDescriptor (name : String) (scope file : Given) (line : Int) (storage : Given)
  | expression (elements : List Int)
  | describeExpression (expression : Given)
  | show (object : Given)
  | filename (object : Given)

/-- Works on modules and on what they derive from debug metadata. -/
inductive ModuleOperation
  | module (name : String) (context : Given) (layout : LayoutChoice)
  | addFunction (module function : Given)
  | addGlobal (module global : Given)
  | addUnit (module unit : Given)
  | hasState (module : Given)
  | getState (module : Given)
  | createState (module : Given)
  | loadState (module : Given)
  | index (module : Given) (choice : IndexChoice)
  | descriptor (module global : Given) (choice : IndexChoice)
  | resetIndex (module : Given)
  | hasDebugInfo (module : Given)
  | subprogramOf (function : Given)
  | setSubprogram (function subprogram : Given)

/-- Makes a value or a function. -/
inductive NewValue
  | constant (literal : Literal) (type : Ty) (context : Given)
  | undef (type : Ty) (context : Given)
  | argument (name : String) (type : Ty)
  | global (name : String) (type : Ty) (initializer : Given)
  | function (name : String) (result : Ty) (arguments : List Given) (subprogram context : Given)
  | block (name : String) (instructions : List Given)
  | user (operands : List Given) (type : Ty) (name : String)
  | instruction (form : NewInstruction) (name : String) (loc : Given)
  | bind (value var expression loc : Given) (offset : Int) (place : RecordPlace)

/-- Changes values and functions. -/
inductive Change
  | setArguments (function : Given) (arguments : List Given)
  | addBlock (function block : Given)
  | addIncoming (phi value block : Given)
  | setLoc (instruction loc : Given)
  | setVariable (record var : Given)
  | setExpression (record expression : Given)
  | setName (object : Given) (name : String)
  | setOperand (user : Given) (index : Int) (value : Given)
  | setOperands (user : Given) (values : List Given)
  | dropReferences (user : Given)
  | append (block instruction : Given)
  | insert (block instruction before : Given)
  | blockInsertAfter (block instruction after : Given)
  | insertAfter (instruction after : Given)
  | remove (block instruction : Given)
  | removeFromParent (instruction : Given)
  | erase (instruction : Given)
  | setInstructions (block : Given) (instructions : List Given)

/-- Asks about values and functions. -/
inductive Question
  | instructionAt (block : Given) (index : Int)
  | next (instruction : Given)
  | indexOf (block instruction : Given)
  | instructions (container : Given)
  | predecessors (block : Given)
  | incoming (phi : Given)
  | part (object : Given) (part : Option Part)
  | info (object : Given)
  | names (function : Given)
  | opcode (instruction : Given)
  | isConstant (value : Given)
  | contextOf (object : Given)
  | operandText (value : Given)
  | dump (object : Given) (locs : Bool)
  | escapeName (name : String)

/-- Works on handles, debug records and locations. -/
inductive RecordOperation
  | handle (value : Given)
  | handleIfExists (value : Given)
  | wrapper (value node context : Given)
  | wrapperIfExists (value node context : Given)
  | tables (context : Given)
  | resolve (instruction : Given) (depth : Int)
  | find (value : Given)
  | migrate (old new : Given)
  | chain (value : Given)
  | scatter (value : Given)

/-- Works on layouts. -/
inductive LayoutOperation
  | layout (text : String)
  | size (layout module : Given) (type : Ty)
  | pointerSize (layout module : Given)
  | sizes (layout module : Given)
  | typeText (type : Ty)

/-- Works on diagnostics and on what reports them. -/
inductive DiagnosticOperation
  | engine (collecting errorsAreFatal : Bool)
  | emitter (engine : Given) (depth : Int)
  | emit (emitter : Given) (subject : Option Subject) (target : Given) (reason : String)
      (level : LevelChoice)
  | diagnostic (level : Option String) (reason : String) (arguments : List (String × Literal))
      (function location : Given) (notes : List Given)
  | report (diagnostic : Given)
  | process (engine diagnostic : Given)
  | received (engine : Given)

/-- An operation on the store. -/
inductive Operation
  | metadata (operation : MetadataOperation)
  | modules (operation : ModuleOperation)
  | make (value : NewValue)
  | change (change : Change)
  | ask (question : Question)
  | records (operation : RecordOperation)
  | layouts (operation : LayoutOperation)
  | diagnostics (operation : DiagnosticOperation)

/-- A command of a script. -/
inductive Command
  /-- An operation; the object that it makes is bound to a label, then put at the end of a block or
  a function, as far as these are given. -/
  | run (operation : Operation) (bindTo into : Given)
  /-- Forgets a label. -/
  | drop (label : Label)
  /-- Runs commands while an engine attaches more notes, up to the first that faults. -/
  | withNotes (engine : Given) (notes : List Given) (body : List Command)
  /-- A command that does not exist. -/
  | unknown (name : String)
  deriving Inhabited

end SsaDebugInfo.Script
