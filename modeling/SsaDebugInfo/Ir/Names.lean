import SsaDebugInfo.Store.Act

/-!
# Names within a function

The arguments, blocks and instructions of a function register their names with it. A name that is
empty or taken is replaced by one that ends in the function's next number; the replaced name stays
with the value when it leaves the function.
-/

namespace SsaDebugInfo

namespace Function

/-- Whether a value asking for this name gets another one. -/
def mustRename (f : Function) (base : String) : Bool :=
  base == "" || f.names.contains base

/-- The name that a value asking for `base` gets. -/
def freshName (f : Function) (base : String) : String :=
  if base == "" then "UNN." ++ toString f.nextName
  else if f.names.contains base then base ++ "." ++ toString f.nextName
  else base

/-- The function with the name that a value asking for `base` gets registered. -/
def register (f : Function) (base : String) : Function :=
  let name := f.freshName base
  { f with
    names := if f.names.contains name then f.names else f.names ++ [name]
    nextName := if f.mustRename base then f.nextName + 1 else f.nextName }

/-- The function without a registered name. -/
def unregister (f : Function) (name : String) : Function :=
  { f with names := f.names.erase name }

end Function

/-- Registers a name for a value, and answers the name that the value gets. -/
def registerName (function : FunctionId) (base : String) : Act String := do
  let name := (← fetch function).freshName base
  update function (·.register base)
  return name

/-- Releases a name, which must be registered. -/
def releaseName (function : FunctionId) (name : String) : Act Unit := do
  if (← fetch function).names.contains name then
    update function (·.unregister name)
  else
    throw .nameNotRegistered

/-- Moves a named value into a function, or out of the one it is in. The name is released in the
old function before the new one registers it; nothing happens if the function stays. -/
def setFunction (value : ValueId) (function : Option FunctionId) : Act Unit := do
  match (← fetch value).site? with
  | none => throw .noSuchMember
  | some site =>
    if site.function ≠ function then
      if let some old := site.function then releaseName old site.name
      update value (·.mapSite fun site => { site with function })
      if let some new := function then
        let name ← registerName new site.name
        update value (·.mapSite fun site => { site with name })

end SsaDebugInfo
