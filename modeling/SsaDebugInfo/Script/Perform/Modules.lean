import SsaDebugInfo.Modules
import SsaDebugInfo.Script.Outcome

/-!
# Operations on modules and layouts

Filling modules, their state, and the index of their debug descriptors. A layout is given by its
label or as that of a module.
-/

namespace SsaDebugInfo.Script

/-- The index that is asked for. -/
def chosenIndex (module : ModuleId) : IndexChoice → Act Index
  | .remembered => cachedIndex module
  | .new times => freshIndex module times

/-- Performs an operation on modules. -/
def performModules (labels : Labels) : ModuleOperation → Act Outcome
  | .module name context layout => do
    let context ← labels.look context >>= optionally contextIn
    let layout ← match layout with
      | .standard => create .layout { text := Layout.defaultText }
      | .described text => create .layout { text := text }
      | .shared layout => labels.look layout >>= layoutIn
    return .creation (.module (← makeModule name context layout))
  | .addFunction module function => do
    let module ← labels.look module
    let function ← labels.look function
    let id ← functionIn function
    addFunction (← moduleIn module) id
    return .object function
  | .addGlobal module global => do
    let module ← labels.look module
    let global ← labels.look global
    addGlobal (← moduleIn module) global
    return .object global
  | .addUnit module unit => do
    let module ← labels.look module
    let unit ← labels.look unit
    addUnit (← moduleIn module) unit
    return .object unit
  | .hasState module => do
    let id ← labels.look module >>= moduleIn
    return .plain (.flag (← fetch id).state.isSome)
  | .getState module => do
    let _ ← labels.look module >>= moduleIn >>= requireState
    return .plain (.flag true)
  | .createState module => do
    labels.look module >>= moduleIn >>= ensureState
    return .plain (.flag true)
  | .loadState module => do
    return .plain (.flag (← labels.look module >>= moduleIn >>= loadState))
  | .index module choice => do
    let id ← labels.look module >>= moduleIn
    let found ← chosenIndex id choice
    return { answer := fun view => do
      return .index (← found.units.mapM (view.shown ∘ some))
        (← found.subprograms.mapM (view.shown ∘ some))
        (← found.globals.mapM (view.shown ∘ some)) }
  | .descriptor module global choice => do
    let id ← labels.look module >>= moduleIn
    let global ← labels.look global
    let found ← chosenIndex id choice
    return .object (← ask fun s => found.descriptorOf s global)
  | .resetIndex module => do
    labels.look module >>= moduleIn >>= resetIndex
    return .silent
  | .hasDebugInfo module => do
    let id ← labels.look module >>= moduleIn
    return .plain (.flag (← fetch id).hasDebugInfo)
  | .subprogramOf function => do
    let id ← labels.look function >>= functionIn
    return .object (← fetch id).subprogram
  | .setSubprogram function subprogram => do
    let function ← labels.look function
    let subprogram ← labels.look subprogram
    match function with
    | none => throw .noSuchMember
    | some (.function id) => update id fun f => { f with subprogram }
    | _ => pure ()
    return .silent

/-- The layout that is given, or else that of the given module. -/
def chosenLayout (labels : Labels) (layout module : Given) : Act LayoutId := do
  match module with
  | none => layoutIn (← labels.look layout)
  | some _ => return (← fetch (← moduleIn (← labels.look module))).layout

/-- Performs an operation on layouts. -/
def performLayouts (labels : Labels) : LayoutOperation → Act Outcome
  | .layout text => do
    let id ← create .layout { text := text }
    return { made := some (some (.layout id))
             answer := fun _ => .ok (.text (Layout.print { text })) }
  | .size layout module type => do
    let id ← chosenLayout labels layout module
    return .plain (.number (← sizeUnder id (← formType type)))
  | .pointerSize layout module => do
    let id ← chosenLayout labels layout module
    return .plain (.number (← sizeUnder id Layout.pointerType))
  | .sizes layout module => do
    let id ← chosenLayout labels layout module
    let sizes := (← fetch id).cache.toArray.insertionSort fun a b => decide (a.1 < b.1)
    return .plain (.sizes sizes.toList)
  | .typeText type => do return .plain (.text (← formType type).print)

end SsaDebugInfo.Script
