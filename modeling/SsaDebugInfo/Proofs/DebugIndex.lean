import SsaDebugInfo.Diagnostics.Emitter
import SsaDebugInfo.Proofs.Act.Ends

/-!
# What an index is made from

The index of a module is made from the lists of its compile units and from the subprograms of its
functions, and from nothing else (`Store.sources`). Where the units are units and list descriptors
of their own kind, indexing answers, and the descriptor of a global variable is the first one in the
lists of the units.

- `Index.ofModule_eq`: an index is made from the sources of its module.
- `Store.Described`: a module with units that list what they should.
- `Index.ofModule_described`, `Index.descriptorOf_described`: indexing a described module, and
  looking up a descriptor.
-/

namespace SsaDebugInfo

/-- The lists of a compile unit: its global descriptors and its subprograms. -/
def Node.lists? : Node → Option (List Slot × List Slot)
  | unit _ _ globals subprograms => some (globals, subprograms)
  | _ => none

/-- The storage of a global descriptor. -/
def Node.storage? : Node → Option Slot
  | globalVariable _ _ _ _ storage => some storage
  | _ => none

/-- Whether a node is a subprogram. -/
def Node.isSubprogram : Node → Bool
  | subprogram .. => true
  | _ => false

/-- What an index is made from: units with their lists, and functions with their subprograms. -/
structure Sources where
  units : List (Slot × Option (List Slot × List Slot)) := []
  functions : List (FunctionId × Option Slot) := []
  deriving DecidableEq

/-- The global descriptors that the units list, in the order of traversal. -/
def Sources.descriptors (sources : Sources) : List Ref :=
  sources.units.flatMap fun unit => ((unit.2.map (·.1)).getD []).filterMap id

namespace Store

variable (s : Store)

/-- The lists of the compile unit in a slot. -/
def listsIn? (unit : Slot) : Option (List Slot × List Slot) :=
  (s.nodeIn? unit).bind Node.lists?

/-- The subprogram of a function. -/
def subprogramOf? (function : FunctionId) : Option Slot :=
  (s.get? function).map (·.subprogram)

/-- The compile units of a module. -/
def unitsOf (module : ModuleId) : List Slot :=
  ((s.get? module).map (·.units)).getD []

/-- The functions of a module. -/
def functionsIn (module : ModuleId) : List FunctionId :=
  ((s.get? module).map (·.functions)).getD []

/-- What the index of a module is made from. -/
def sources (module : ModuleId) : Sources where
  units := (s.unitsOf module).map fun unit => (unit, s.listsIn? unit)
  functions := (s.functionsIn module).map fun f => (f, s.subprogramOf? f)

/-- The first of the global descriptors of a module that describes what is in a slot. -/
def declaration (module : ModuleId) (storage : Slot) : Slot :=
  (s.sources module).descriptors.find? fun ref =>
    (s.nodeIn? (some ref)).bind Node.storage? = some storage

/-- Whether a global descriptor is referred to. -/
def IsGlobal (ref : Ref) : Prop :=
  ((s.nodeIn? (some ref)).bind Node.storage?).isSome

/-- A slot holds a compile unit that lists descriptors of their own kind; its lists may have empty
places. -/
structure Lists (unit : Slot) (globals subprograms : List Slot) : Prop where
  listed : s.listsIn? unit = some (globals, subprograms)
  globals : ∀ ref, some ref ∈ globals → s.IsGlobal ref
  subprograms : ∀ ref, some ref ∈ subprograms →
    ((s.nodeIn? (some ref)).map Node.isSubprogram).getD false = true

/-- All compile units of a module are units that list descriptors of their own kind. -/
def Described (module : ModuleId) : Prop :=
  ∀ unit ∈ s.unitsOf module, ∃ globals subprograms, s.Lists unit globals subprograms

instance : DecidablePred s.IsGlobal :=
  fun _ => inferInstanceAs (Decidable (_ = true))

instance (unit : Slot) (globals subprograms : List Slot) :
    Decidable (s.Lists unit globals subprograms) :=
  decidable_of_iff (s.listsIn? unit = some (globals, subprograms) ∧
      (∀ slot ∈ globals, ∀ ref ∈ slot, s.IsGlobal ref) ∧ ∀ slot ∈ subprograms, ∀ ref ∈ slot,
        ((s.nodeIn? (some ref)).map Node.isSubprogram).getD false = true)
    ⟨fun ⟨listed, globals, subprograms⟩ =>
      ⟨listed, fun ref h => globals _ h ref rfl, fun ref h => subprograms _ h ref rfl⟩,
    fun h => ⟨h.listed, fun _ hslot ref href => h.globals ref (href ▸ hslot),
      fun _ hslot ref href => h.subprograms ref (href ▸ hslot)⟩⟩

instance (module : ModuleId) : Decidable (s.Described module) :=
  decidable_of_iff (∀ unit ∈ s.unitsOf module,
      s.Lists unit ((s.listsIn? unit).getD ([], [])).1 ((s.listsIn? unit).getD ([], [])).2)
    ⟨fun h unit hunit => ⟨_, _, h unit hunit⟩, fun h unit hunit =>
      have ⟨_, _, hlists⟩ := h unit hunit
      hlists.listed ▸ hlists⟩

variable {s}

/-- The units of a described module have lists. -/
theorem Described.isSome_lists {module : ModuleId} (h : s.Described module) :
    ∀ unit ∈ (s.sources module).units, unit.2.isSome := by
  intro unit hunit
  obtain ⟨slot, hslot, rfl⟩ := List.mem_map.mp hunit
  obtain ⟨globals, subprograms, hlists⟩ := h slot hslot
  exact Option.isSome_iff_exists.mpr ⟨_, hlists.listed⟩

/-- Functions that are there have a subprogram or none. -/
theorem isSome_subprograms {module : ModuleId}
    (h : ∀ f ∈ s.functionsIn module, s.Has (.function f)) :
    ∀ f ∈ (s.sources module).functions, f.2.isSome := by
  intro f hf
  obtain ⟨id, hid, rfl⟩ := List.mem_map.mp hf
  obtain ⟨o, ho⟩ := Option.isSome_iff_exists.mp (h id hid)
  exact Option.isSome_iff_exists.mpr ⟨o.subprogram, by rw [Store.subprogramOf?, ho]; rfl⟩

end Store

namespace Index

/-! ## Indexes from sources -/

/-- Adds a unit with its lists. -/
def addListed (unit : Slot × Option (List Slot × List Slot)) :
    ExceptT Fault (StateM Index) Unit := do
  modify (·.addUnit unit.1)
  match unit.2 with
  | some (globals, subprograms) =>
    modify fun index => globals.foldl addGlobal index
    modify fun index => subprograms.foldl addSubprogram index
  | none => throw .noSuchMember

/-- Adds what sources lead to. -/
def ofSources (sources : Sources) : ExceptT Fault (StateM Index) Unit := do
  sources.units.forM addListed
  sources.functions.forM fun function => do
    modify (·.addSubprogram (← MonadExcept.ofExcept (found function.2)))

/-- The index that sources make, as far as they can be gone through. -/
def made (sources : Sources) : Index :=
  ((ofSources sources).run.run {}).2

/-- A unit is added with the lists that the store has for it. -/
theorem addUnitTree_eq (s : Store) (unit : Slot) :
    addUnitTree s unit = addListed (unit, s.listsIn? unit) := by
  unfold addUnitTree addListed Store.listsIn?
  cases s.nodeIn? unit with
  | none => rfl
  | some n => cases n <;> rfl

/-- An index is made from the sources of its module alone. -/
theorem ofModule_eq {s : Store} {module : ModuleId} (hmodule : s.Has (.module module)) :
    ofModule s module = ofSources (s.sources module) := by
  obtain ⟨m, hm⟩ := Option.isSome_iff_exists.mp hmodule
  unfold ofModule ofSources Store.sources Store.unitsOf Store.functionsIn
  rw [hm]
  simp only [List.forM_eq_forM, Option.map_some, Option.getD_some, List.forM_map,
    ← addUnitTree_eq]
  show (do forM m.units (addUnitTree s); _) = _
  refine congrArg _ (funext fun _ => congrArg _ (funext fun f => ?_))
  unfold Store.subprogramOf?
  cases s.get? f with
  | none => rfl
  | some o => rfl

/-! ## Complete sources -/

/-- The index with a unit and what it lists. -/
def addLists (index : Index) (unit : Slot) (lists : List Slot × List Slot) : Index :=
  lists.2.foldl addSubprogram (lists.1.foldl addGlobal (index.addUnit unit))

/-- Units that have lists are gone through to the end. -/
theorem run_forM_addListed {units : List (Slot × Option (List Slot × List Slot))}
    (h : ∀ unit ∈ units, unit.2.isSome) (index : Index) :
    (units.forM addListed).run.run index =
      (.ok (),
        units.foldl (fun index unit => index.addLists unit.1 (unit.2.getD ([], []))) index) := by
  induction units generalizing index with
  | nil => rfl
  | cons unit rest ih =>
    obtain ⟨slot, lists⟩ := unit
    obtain ⟨lists, rfl⟩ := Option.isSome_iff_exists.mp (h _ List.mem_cons_self)
    exact ih (fun unit hunit => h unit (List.mem_cons_of_mem _ hunit)) _

/-- If every function has a subprogram, all of them are added, one after another. -/
theorem run_forM_addSubprogram {functions : List (FunctionId × Option Slot)}
    (h : ∀ f ∈ functions, f.2.isSome) (index : Index) :
    (functions.forM fun f => do
        modify (·.addSubprogram (← MonadExcept.ofExcept (found f.2))) :
      ExceptT Fault (StateM Index) Unit).run.run index =
      (.ok (), functions.foldl (fun index f => index.addSubprogram (f.2.getD none)) index) := by
  induction functions generalizing index with
  | nil => rfl
  | cons f rest ih =>
    obtain ⟨id, subprogram⟩ := f
    obtain ⟨subprogram, rfl⟩ := Option.isSome_iff_exists.mp (h _ List.mem_cons_self)
    exact ih (fun f hf => h f (List.mem_cons_of_mem _ hf)) _

/-- Sources in which everything is there are gone through to the end. -/
theorem run_ofSources {sources : Sources} (hunits : ∀ unit ∈ sources.units, unit.2.isSome)
    (hfunctions : ∀ f ∈ sources.functions, f.2.isSome) (index : Index) :
    (ofSources sources).run.run index =
      (.ok (), sources.functions.foldl (fun index f => index.addSubprogram (f.2.getD none))
        (sources.units.foldl (fun index unit => index.addLists unit.1 (unit.2.getD ([], [])))
          index)) := by
  unfold ofSources
  rw [ExceptT.run_bind, StateT.run_bind, run_forM_addListed hunits index]
  exact run_forM_addSubprogram hfunctions _

/-! ## The descriptors of an index -/

@[simp] theorem globals_addUnit (index : Index) (unit : Slot) :
    (index.addUnit unit).globals = index.globals := by
  unfold addUnit
  split
  · rfl
  · split <;> rfl

@[simp] theorem globals_addSubprogram (index : Index) (subprogram : Slot) :
    (index.addSubprogram subprogram).globals = index.globals := by
  unfold addSubprogram
  split
  · rfl
  · split <;> rfl

theorem globals_foldl_addSubprogram {α : Type} (f : α → Slot) (l : List α) (index : Index) :
    (l.foldl (fun index a => index.addSubprogram (f a)) index).globals = index.globals := by
  induction l generalizing index with
  | nil => rfl
  | cons a rest ih => exact (ih _).trans (globals_addSubprogram index (f a))

/-- The only global variable that adding one can bring is that one. -/
theorem mem_globals_addGlobal {index : Index} {slot : Slot} {ref : Ref}
    (h : ref ∈ (index.addGlobal slot).globals) : ref ∈ index.globals ∨ slot = some ref := by
  unfold addGlobal at h
  split at h
  · exact .inl h
  · split at h
    · exact .inl h
    · rcases List.mem_append.mp h with h | h
      · exact .inl h
      · exact .inr (by rw [List.mem_singleton.mp h])

/-- The only global variables that adding a list can bring are those of the list. -/
theorem mem_globals_foldl_addGlobal {index : Index} {slots : List Slot} {ref : Ref}
    (h : ref ∈ (slots.foldl addGlobal index).globals) :
    ref ∈ index.globals ∨ ref ∈ slots.filterMap id := by
  induction slots generalizing index with
  | nil => exact .inl h
  | cons slot rest ih =>
    rcases ih h with h | h
    · rcases mem_globals_addGlobal h with h | rfl
      · exact .inl h
      · exact .inr (by simp)
    · exact .inr (by simp_all)

/-- The only global variables that units bring are those that they list. -/
theorem mem_globals_forM_addListed {units : List (Slot × Option (List Slot × List Slot))}
    {index : Index} {ref : Ref} (h : ref ∈ ((units.forM addListed).run.run index).2.globals) :
    ref ∈ index.globals ∨ ref ∈ ({ units } : Sources).descriptors := by
  induction units generalizing index with
  | nil => exact .inl h
  | cons unit rest ih =>
    obtain ⟨slot, lists⟩ := unit
    cases lists with
    | none =>
      have h : ref ∈ (index.addUnit slot).globals := h
      exact .inl (by rwa [globals_addUnit] at h)
    | some lists =>
      have h : ref ∈ ((rest.forM addListed).run.run (index.addLists slot lists)).2.globals := h
      rcases ih h with h | h
      · have hlast : (index.addLists slot lists).globals =
            (lists.1.foldl addGlobal (index.addUnit slot)).globals :=
          globals_foldl_addSubprogram id lists.2 _
        rw [hlast] at h
        rcases mem_globals_foldl_addGlobal h with h | h
        · exact .inl (by rwa [globals_addUnit] at h)
        · exact .inr (List.mem_append_left _ h)
      · exact .inr (List.mem_append_right _ h)

theorem globals_forM_addSubprogram (functions : List (FunctionId × Option Slot)) (index : Index) :
    ((functions.forM fun f => do
        modify (·.addSubprogram (← MonadExcept.ofExcept (found f.2))) :
      ExceptT Fault (StateM Index) Unit).run.run index).2.globals = index.globals := by
  induction functions generalizing index with
  | nil => rfl
  | cons f rest ih =>
    obtain ⟨id, subprogram⟩ := f
    cases subprogram with
    | none => rfl
    | some subprogram => exact (ih _).trans (globals_addSubprogram index subprogram)

/-- However far sources can be gone through, what is listed as a global descriptor is listed as one
by a unit. -/
theorem globals_made {sources : Sources} {ref : Ref} (h : ref ∈ (made sources).globals) :
    ref ∈ sources.descriptors := by
  have hunits : ∀ {index : Index}, index = ((sources.units.forM addListed).run.run {}).2 →
      ref ∈ index.globals → ref ∈ sources.descriptors := by
    rintro _ rfl h
    rcases mem_globals_forM_addListed h with h | h
    · cases h
    · exact h
  unfold made ofSources at h
  rw [ExceptT.run_bind, StateT.run_bind] at h
  generalize hrun : (sources.units.forM addListed).run.run {} = result at h hunits
  obtain ⟨_ | _, index⟩ := result
  · exact hunits rfl h
  · have hsame := globals_forM_addSubprogram sources.functions index
    exact hunits rfl (hsame ▸ h)

/-- What is listed as a unit or a subprogram is no global descriptor, what is listed as one is. -/
structure Sorted (index : Index) (isGlobal : Ref → Prop) : Prop where
  units : ∀ ref ∈ index.units, ¬ isGlobal ref
  subprograms : ∀ ref ∈ index.subprograms, ¬ isGlobal ref
  globals : ∀ ref ∈ index.globals, isGlobal ref

section Sorted

variable {isGlobal : Ref → Prop} {index : Index}

/-- A unit that is no global variable leaves the index sorted. -/
theorem Sorted.addUnit (h : index.Sorted isGlobal) {unit : Slot}
    (hunit : ∀ ref, unit = some ref → ¬ isGlobal ref) : (index.addUnit unit).Sorted isGlobal := by
  unfold Index.addUnit
  split
  · exact h
  · next ref =>
    split
    · exact h
    · refine { h with units := fun ref' href => ?_ }
      rcases List.mem_append.mp href with href | href
      · exact h.units ref' href
      · rw [List.mem_singleton.mp href]
        exact hunit ref rfl

/-- A subprogram that is no global variable leaves the index sorted. -/
theorem Sorted.addSubprogram (h : index.Sorted isGlobal) {subprogram : Slot}
    (hsubprogram : ∀ ref, subprogram = some ref → ¬ isGlobal ref) :
    (index.addSubprogram subprogram).Sorted isGlobal := by
  unfold Index.addSubprogram
  split
  · exact h
  · next ref =>
    split
    · exact h
    · refine { h with subprograms := fun ref' href => ?_ }
      rcases List.mem_append.mp href with href | href
      · exact h.subprograms ref' href
      · rw [List.mem_singleton.mp href]
        exact hsubprogram ref rfl

/-- A global descriptor is listed unless it is listed as one already. -/
theorem Sorted.addGlobal (h : index.Sorted isGlobal) {slot : Slot}
    (hslot : ∀ ref, slot = some ref → isGlobal ref) :
    (index.addGlobal slot).Sorted isGlobal ∧ ∀ p : Ref → Bool,
      (index.addGlobal slot).globals.find? p = (index.globals ++ slot.toList).find? p := by
  unfold Index.addGlobal
  cases slot with
  | none => exact ⟨h, fun p => by rw [Option.toList_none, List.append_nil]⟩
  | some ref =>
    have hglobal := hslot ref rfl
    dsimp only
    split
    · next hknows =>
      refine ⟨h, fun p => ?_⟩
      -- it is known neither as a unit nor as a subprogram
      have hmem : ref ∈ index.globals := by
        simp only [knows, Bool.or_eq_true, List.contains_iff_mem] at hknows
        rcases hknows with (hunit | hsubprogram) | hmem
        · exact absurd hglobal (h.units ref hunit)
        · exact absurd hglobal (h.subprograms ref hsubprogram)
        · exact hmem
      rw [List.find?_append]
      cases hfind : index.globals.find? p with
      | some found => rfl
      | none =>
        have hp := List.find?_eq_none.mp hfind ref hmem
        simp [hp]
    · refine ⟨{ h with globals := fun ref' href => ?_ }, fun p => rfl⟩
      rcases List.mem_append.mp href with href | href
      · exact h.globals ref' href
      · rw [List.mem_singleton.mp href]
        exact hglobal

/-- A list of global variables leaves the index sorted, and the first one of a sort is found among
the old ones and then the list. -/
theorem Sorted.foldl_addGlobal (h : index.Sorted isGlobal) {slots : List Slot}
    (hslots : ∀ ref, some ref ∈ slots → isGlobal ref) :
    (slots.foldl Index.addGlobal index).Sorted isGlobal ∧ ∀ p : Ref → Bool,
      (slots.foldl Index.addGlobal index).globals.find? p =
        (index.globals ++ slots.filterMap id).find? p := by
  induction slots generalizing index with
  | nil => exact ⟨h, fun p => by rw [List.filterMap_nil, List.append_nil]; rfl⟩
  | cons slot rest ih =>
    have hslot : ∀ ref, slot = some ref → isGlobal ref :=
      fun ref href => hslots ref (href ▸ List.mem_cons_self)
    have hfirst := h.addGlobal hslot
    have hrest := ih hfirst.1 fun ref href => hslots ref (List.mem_cons_of_mem _ href)
    refine ⟨hrest.1, fun p => (hrest.2 p).trans ?_⟩
    rw [List.find?_append, hfirst.2 p, ← List.find?_append]
    cases slot with
    | none => simp
    | some ref => simp

/-- A list of subprograms leaves the index sorted. -/
theorem Sorted.foldl_addSubprogram (h : index.Sorted isGlobal) {slots : List Slot}
    (hslots : ∀ ref, some ref ∈ slots → ¬ isGlobal ref) :
    (slots.foldl Index.addSubprogram index).Sorted isGlobal := by
  induction slots generalizing index with
  | nil => exact h
  | cons slot rest ih =>
    refine ih (h.addSubprogram fun ref href => hslots ref (href ▸ List.mem_cons_self)) ?_
    exact fun ref href => hslots ref (List.mem_cons_of_mem _ href)

end Sorted

/-! ## Described modules -/

section Described

variable {s : Store} {index : Index}

/-- A unit adds its global descriptors, in their order. -/
theorem Sorted.addLists (h : index.Sorted s.IsGlobal) {unit : Slot}
    {globals subprograms : List Slot} (hlists : s.Lists unit globals subprograms) :
    (index.addLists unit (globals, subprograms)).Sorted s.IsGlobal ∧ ∀ p : Ref → Bool,
      (index.addLists unit (globals, subprograms)).globals.find? p =
        (index.globals ++ globals.filterMap id).find? p := by
  have hunit : (index.addUnit unit).Sorted s.IsGlobal := by
    refine h.addUnit fun ref href hglobal => ?_
    subst href
    obtain ⟨n, hn, hlisted⟩ := Option.bind_eq_some_iff.mp hlists.listed
    rw [Store.IsGlobal, hn] at hglobal
    cases n with
    | unit => cases hglobal
    | _ => cases hlisted
  have hglobals := hunit.foldl_addGlobal hlists.globals
  refine ⟨hglobals.1.foldl_addSubprogram fun ref href hglobal => ?_, fun p => ?_⟩
  · have hsubprogram := hlists.subprograms ref href
    rw [Store.IsGlobal] at hglobal
    cases hn : s.nodeIn? (some ref) with
    | none =>
      rw [hn] at hglobal
      cases hglobal
    | some n =>
      rw [hn] at hglobal hsubprogram
      cases n with
      | subprogram => cases hglobal
      | _ => cases hsubprogram
  · have hlast : (index.addLists unit (globals, subprograms)).globals =
        (globals.foldl Index.addGlobal (index.addUnit unit)).globals :=
      globals_foldl_addSubprogram id subprograms _
    rw [hlast, hglobals.2 p, globals_addUnit]

/-- Units add their global descriptors, unit by unit. -/
theorem Sorted.foldl_addLists (h : index.Sorted s.IsGlobal) {units : List Slot}
    (hunits : ∀ unit ∈ units, ∃ globals subprograms, s.Lists unit globals subprograms) :
    ((units.map fun unit => (unit, s.listsIn? unit)).foldl
      (fun index unit => index.addLists unit.1 (unit.2.getD ([], []))) index).Sorted s.IsGlobal ∧
    ∀ p : Ref → Bool, ((units.map fun unit => (unit, s.listsIn? unit)).foldl
        (fun index unit => index.addLists unit.1 (unit.2.getD ([], []))) index).globals.find? p =
      (index.globals ++ (units.map fun unit => (unit, s.listsIn? unit)).flatMap fun unit =>
        ((unit.2.map (·.1)).getD []).filterMap id).find? p := by
  induction units generalizing index with
  | nil => exact ⟨h, fun p => by rw [List.map_nil, List.flatMap_nil, List.append_nil]; rfl⟩
  | cons unit rest ih =>
    obtain ⟨globals, subprograms, hlists⟩ := hunits unit List.mem_cons_self
    have hfirst := h.addLists hlists
    rw [List.map_cons, List.foldl_cons, hlists.listed, Option.getD_some]
    have hrest := ih hfirst.1 fun unit hunit => hunits unit (List.mem_cons_of_mem _ hunit)
    refine ⟨hrest.1, fun p => (hrest.2 p).trans ?_⟩
    rw [List.find?_append, hfirst.2 p, ← List.find?_append, List.append_assoc, List.flatMap_cons]
    rfl

/-- Indexing a described module answers. The index lists global descriptors only as such, and what
is found first among them is found first in the lists of the units. -/
theorem ofModule_described {module : ModuleId} (hmodule : s.Has (.module module))
    (hdescribed : s.Described module)
    (hfunctions : ∀ f ∈ s.functionsIn module, s.Has (.function f)) :
    (ofModule s module).run.run {} = (.ok (), made (s.sources module)) ∧
      (∀ ref ∈ (made (s.sources module)).globals, s.IsGlobal ref) ∧ ∀ p : Ref → Bool,
      (made (s.sources module)).globals.find? p = (s.sources module).descriptors.find? p := by
  have hrun := run_ofSources hdescribed.isSome_lists (Store.isSome_subprograms hfunctions) {}
  have hempty : Sorted {} s.IsGlobal :=
    ⟨fun _ h => (nomatch h), fun _ h => (nomatch h), fun _ h => (nomatch h)⟩
  have hsorted := hempty.foldl_addLists hdescribed
  have hglobals : (made (s.sources module)).globals =
      ((s.sources module).units.foldl
        (fun index unit => index.addLists unit.1 (unit.2.getD ([], []))) ({} : Index)).globals := by
    rw [made, hrun]
    exact globals_foldl_addSubprogram _ _ _
  refine ⟨?_, ?_, fun p => ?_⟩
  · rw [ofModule_eq hmodule, made, hrun]
  · rw [hglobals]
    exact hsorted.1.globals
  · rw [hglobals]
    exact hsorted.2 p

/-- Among global descriptors the first that describes what is in a slot is found. -/
theorem firstDescriptor_eq {storage : Slot} {refs : List Ref} (h : ∀ ref ∈ refs, s.IsGlobal ref) :
    firstDescriptor s storage refs =
      .ok (refs.find? fun ref => (s.nodeIn? (some ref)).bind Node.storage? = some storage) := by
  induction refs with
  | nil => rfl
  | cons ref rest ih =>
    have hglobal := h ref List.mem_cons_self
    have hrest := ih fun ref href => h ref (List.mem_cons_of_mem _ href)
    unfold Store.IsGlobal at hglobal
    unfold firstDescriptor
    rw [List.find?_cons]
    cases hn : s.nodeIn? (some ref) with
    | none =>
      rw [hn] at hglobal
      cases hglobal
    | some n =>
      rw [hn] at hglobal
      cases n with
      | globalVariable name scope file line described =>
        by_cases hdescribed : described = storage
        · simp [Node.storage?, hdescribed]
        · simp [Node.storage?, hdescribed, hrest]
      | _ => cases hglobal

/-- In a described module the first descriptor of what is in a slot is found in the index. -/
theorem descriptorOf_described {module : ModuleId} (hmodule : s.Has (.module module))
    (hdescribed : s.Described module) (hfunctions : ∀ f ∈ s.functionsIn module, s.Has (.function f))
    (storage : Slot) :
    descriptorOf s (made (s.sources module)) storage = .ok (s.declaration module storage) := by
  obtain ⟨_, hglobals, hfind⟩ := ofModule_described hmodule hdescribed hfunctions
  unfold descriptorOf Store.declaration
  rw [firstDescriptor_eq hglobals, hfind]

end Described

end Index

end SsaDebugInfo
