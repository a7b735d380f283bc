import SsaDebugInfo.Store.Act

/-!
# The index of debug descriptors

An index lists the compile units, subprograms and global descriptors that modules lead to, each once
and in the order in which they are first met: unit by unit, then the subprograms of the functions.

- `Index.ofModule`: adds what a module leads to; a fault leaves what was added before it.
- `Index.descriptorOf`: the first descriptor of a global variable.
-/

namespace SsaDebugInfo

namespace Index

/-- Whether an object is listed already, as whatever it may be. -/
def knows (index : Index) (ref : Ref) : Bool :=
  index.units.contains ref || index.subprograms.contains ref || index.globals.contains ref

/-- Lists a compile unit, unless there is none or it is listed already. -/
def addUnit (index : Index) : Slot → Index
  | none => index
  | some ref => if index.knows ref then index else { index with units := index.units ++ [ref] }

@[inherit_doc addUnit]
def addSubprogram (index : Index) : Slot → Index
  | none => index
  | some ref =>
    if index.knows ref then index else { index with subprograms := index.subprograms ++ [ref] }

@[inherit_doc addUnit]
def addGlobal (index : Index) : Slot → Index
  | none => index
  | some ref => if index.knows ref then index else { index with globals := index.globals ++ [ref] }

/-- Adds a unit, its global descriptors and its subprograms. A missing unit is not listed but is
asked for its descriptors all the same, which is a fault. -/
def addUnitTree (s : Store) (unit : Slot) : ExceptT Fault (StateM Index) Unit := do
  modify (·.addUnit unit)
  match s.nodeIn? unit with
  | some (.unit _ _ globals subprograms) =>
    modify fun index => globals.foldl addGlobal index
    modify fun index => subprograms.foldl addSubprogram index
  | _ => throw .noSuchMember

/-- Adds what a module leads to. -/
def ofModule (s : Store) (module : ModuleId) : ExceptT Fault (StateM Index) Unit := do
  let m ← MonadExcept.ofExcept (found (s.get? module))
  m.units.forM (addUnitTree s)
  m.functions.forM fun id => do
    let f ← MonadExcept.ofExcept (found (s.get? id))
    modify (·.addSubprogram f.subprogram)

/-- The first of some descriptors whose storage is the given one. -/
def firstDescriptor (s : Store) (storage : Slot) : List Ref → Except Fault Slot
  | [] => .ok none
  | ref :: rest =>
    match s.nodeIn? (some ref) with
    | some (.globalVariable _ _ _ _ described) =>
      if described = storage then .ok (some ref) else firstDescriptor s storage rest
    | _ => .error .noSuchMember

/-- The first descriptor of a global variable. -/
def descriptorOf (s : Store) (index : Index) (storage : Slot) : Except Fault Slot :=
  firstDescriptor s storage index.globals

end Index

/-- An index made for the occasion: it goes through the module the given number of times. -/
def freshIndex (module : ModuleId) : Nat → Act Index
  | 0 => pure {}
  | times + 1 => do
    let index ← freshIndex module times
    let (result, index) := (Index.ofModule (← get) module).run.run index
    MonadExcept.ofExcept result
    return index

/-- Whether a module has a compile unit. -/
def Module.hasDebugInfo (m : Module) : Bool :=
  m.units.any (·.isSome)

/-- The index that a module's state remembers, made if there is none; what an attempt that faults
has found is remembered too. The state must exist. -/
def cachedIndex (module : ModuleId) : Act Index := do
  match (← fetch module).state with
  | none => throw .unmetRequirement
  | some { index := some index } => return index
  | some { index := none } =>
    let (result, index) := (Index.ofModule (← get) module).run.run {}
    update module fun m => { m with state := some { index := some index } }
    MonadExcept.ofExcept result
    return index

end SsaDebugInfo
