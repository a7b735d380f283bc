import SsaDebugInfo.DebugIndex

/-!
# Modules

A module collects functions, global variables and compile units; a function or a global belongs to
at most one. The state of a module is derived from its debug metadata when it is first asked for.
The layout of a module, which several may share, tells the sizes of types.
-/

namespace SsaDebugInfo

/-- A module with a context and a layout, by default the global context and a default layout of its
own. -/
def makeModule (name : String) (context : Option ContextId) (layout : LayoutId) : Act ModuleId :=
  create .module { name, context := context.getD globalContext, layout }

/-- Adds a function, which must not be in a module. -/
def addFunction (module : ModuleId) (function : FunctionId) : Act Unit := do
  require (← fetch function).module.isNone
  update function fun f => { f with module := some module }
  update module fun m => { m with functions := m.functions ++ [function] }

/-- The global variable in a slot; other values are not in modules. -/
def globalIn (slot : Slot) : Act (ValueId × Global) := do
  let id ← valueIn slot
  match (← fetch id).global? with
  | some g => return (id, g)
  | none => throw .noSuchMember

/-- Adds a global variable, which must not be in a module. -/
def addGlobal (module : ModuleId) (slot : Slot) : Act Unit := do
  let (id, g) ← globalIn slot
  require g.module.isNone
  update id (·.mapGlobal fun g => { g with module := some module })
  update module fun m => { m with globals := m.globals ++ [id] }

/-- Adds a compile unit, or an empty place for one. -/
def addUnit (module : ModuleId) (unit : Slot) : Act Unit :=
  update module fun m => { m with units := m.units ++ [unit] }

/-- Makes the state of a module unless it has one. -/
def ensureState (module : ModuleId) : Act Unit := do
  let m ← fetch module
  if m.state.isNone then
    record ⟨.modules, .debug, "materializing state of module " ++ m.name⟩
    update module fun m => { m with state := some {} }

/-- The state of a module, which must have one. -/
def requireState (module : ModuleId) : Act ModuleState := do
  match (← fetch module).state with
  | some state => return state
  | none => throw .unmetRequirement

/-- Makes the module forget its index, so that the next one sees changed metadata. -/
def resetIndex (module : ModuleId) : Act Unit := do
  let _ ← requireState module
  update module fun m => { m with state := some {} }

/-- Makes the state of a module from its metadata; answers whether it had none. -/
def loadState (module : ModuleId) : Act Bool := do
  let m ← fetch module
  if m.state.isSome then return false
  ensureState module
  record ⟨.loader, .debug,
    "load module state from metadata: created state of module " ++ m.name⟩
  return true

/-! ## Sizes -/

/-- The size of a type under a layout, which remembers it. -/
def sizeUnder (id : LayoutId) (type : Ty) : Act Int := do
  let (result, layout) := (← fetch id).sizeInBits type
  update id fun _ => layout
  MonadExcept.ofExcept result

end SsaDebugInfo
