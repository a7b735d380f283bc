import Mathlib.Data.List.Induction
import SsaDebugInfo.Proofs.DebugIndex

/-!
# An index lists what is met first

An index may go through several modules, and through a module more than once. Nodes are met as
units, in the lists of units and as subprograms of functions, possibly often (`Sources.mentions`).
As long as everything that is met is a node of the kind that it is listed as, each list of the index
holds what has been met for it without the repetitions, in the order of first meetings
(`Index.Gathers`).

- `Index.Gathers.add`: one more meeting.
- `Index.Gathers.ofModule`, `Index.Gathers.ofModules`: all that modules lead to.
- `Index.Gathers.descriptorOf`: the descriptor that is found is the one met first.
-/

namespace SsaDebugInfo

/-! ## Lists without repetitions -/

section Firsts

variable {α : Type} [DecidableEq α] {l : List α} {a : α}

/-- The last entry of a list is kept among the first occurrences if it does not occur before. -/
theorem eraseDups_concat :
    (l ++ [a]).eraseDups = if a ∈ l then l.eraseDups else l.eraseDups ++ [a] := by
  rw [List.eraseDups_append]
  split
  · next h => simp [List.removeAll, h]
  · next h => simp [List.removeAll, h, List.eraseDups_cons]

/-- Repeating what is there adds nothing. -/
theorem eraseDups_append_of_subset {l' : List α} (h : l' ⊆ l) :
    (l ++ l').eraseDups = l.eraseDups := by
  rw [List.eraseDups_append, show l'.removeAll l = [] from ?_]
  · simp
  · simpa [List.removeAll] using fun a ha => h ha

/-- What is found first without the repetitions is found first. -/
theorem find?_eraseDups (p : α → Bool) : l.eraseDups.find? p = l.find? p := by
  induction l using List.reverseRecOn with
  | nil => rfl
  | append_singleton l a ih =>
    rw [eraseDups_concat, List.find?_append]
    split
    · next h =>
      rw [ih]
      cases hfind : l.find? p with
      | some found => rfl
      | none => simp [List.find?_eq_none.mp hfind a h]
    · rw [List.find?_append, ih]

end Firsts

/-! ## What is met -/

namespace Index

/-- The lists of an index. -/
inductive Part
  | units | subprograms | globals
  deriving DecidableEq

/-- One of the lists of an index. -/
def listed (index : Index) : Part → List Ref
  | .units => index.units
  | .subprograms => index.subprograms
  | .globals => index.globals

/-- Adds to one of the lists, unless there is nothing to add or it is listed already. -/
def add (index : Index) : Part → Slot → Index
  | .units => index.addUnit
  | .subprograms => index.addSubprogram
  | .globals => index.addGlobal

/-- References that are met for one of the lists. -/
def metAs (part : Part) (refs : List Ref) : Part → List Ref :=
  fun p => if p = part then refs else []

/-- What is met in a unit with its lists. -/
def metIn (unit : Slot × Option (List Slot × List Slot)) : Part → List Ref
  | .units => unit.1.toList
  | .subprograms => ((unit.2.map (·.2)).getD []).filterMap id
  | .globals => ((unit.2.map (·.1)).getD []).filterMap id

end Index

/-- What sources lead to, as often as they do: unit by unit, then the subprograms of the
functions. -/
def Sources.mentions (sources : Sources) (part : Index.Part) : List Ref :=
  (sources.units.flatMap fun unit => Index.metIn unit part) ++
    sources.functions.flatMap fun f => Index.metAs .subprograms (f.2.getD none).toList part

/-- The list of an index in which a node belongs, if any. -/
def Node.part? : Node → Option Index.Part
  | unit .. => some .units
  | subprogram .. => some .subprograms
  | globalVariable .. => some .globals
  | _ => none

namespace Store

variable (s : Store)

/-- The list of an index in which the node that is referred to belongs, if any. -/
def partOf? (ref : Ref) : Option Index.Part :=
  (s.nodeIn? (some ref)).bind Node.part?

/-- All compile units of a module are units that list descriptors of their own kind, and the
subprograms of its functions are subprograms. There may be empty places among all but the units. -/
structure Indexable (module : ModuleId) : Prop where
  units : s.Described module
  functions : ∀ f ∈ s.functionsIn module, ∀ ref, s.subprogramOf? f = some (some ref) →
    s.partOf? ref = some .subprograms

instance (module : ModuleId) : Decidable (s.Indexable module) :=
  decidable_of_iff (s.Described module ∧ ∀ f ∈ s.functionsIn module,
      ∀ slot ∈ s.subprogramOf? f, ∀ ref ∈ slot, s.partOf? ref = some .subprograms)
    ⟨fun ⟨units, functions⟩ => ⟨units, fun f hf ref href => functions f hf _ href ref rfl⟩,
      fun h => ⟨h.units, fun f hf _ hslot ref href => h.functions f hf ref (href ▸ hslot)⟩⟩

variable {s}

/-- Global variables are what enters the part of them. -/
theorem isGlobal_iff {ref : Ref} : s.IsGlobal ref ↔ s.partOf? ref = some .globals := by
  unfold IsGlobal partOf?
  cases s.nodeIn? (some ref) with
  | none => simp
  | some n => cases n <;> simp [Node.storage?, Node.part?]

/-- What is met in a unit belongs where it is met. -/
theorem Lists.partOf? {unit : Slot} {globals subprograms : List Slot}
    (h : s.Lists unit globals subprograms) {part : Index.Part} {ref : Ref}
    (href : ref ∈ Index.metIn (unit, s.listsIn? unit) part) : s.partOf? ref = some part := by
  rw [h.listed] at href
  cases part with
  | units =>
    obtain rfl := Option.mem_toList.mp href
    obtain ⟨n, hn, hlisted⟩ := Option.bind_eq_some_iff.mp h.listed
    rw [Store.partOf?, hn]
    cases n with
    | unit => rfl
    | _ => cases hlisted
  | subprograms =>
    obtain ⟨slot, hslot, rfl⟩ := List.mem_filterMap.mp href
    have hsubprogram := h.subprograms ref hslot
    rw [Store.partOf?]
    cases hn : s.nodeIn? (some ref) with
    | none =>
      rw [hn] at hsubprogram
      cases hsubprogram
    | some n =>
      rw [hn] at hsubprogram
      cases n with
      | subprogram => rfl
      | _ => cases hsubprogram
  | globals =>
    obtain ⟨slot, hslot, rfl⟩ := List.mem_filterMap.mp href
    exact isGlobal_iff.mp (h.globals ref hslot)

/-- What an indexable module leads to belongs where it is met. -/
theorem Indexable.partOf? {module : ModuleId} (h : s.Indexable module) {part : Index.Part}
    {ref : Ref} (href : ref ∈ (s.sources module).mentions part) : s.partOf? ref = some part := by
  rcases List.mem_append.mp href with hunit | hfunction
  · obtain ⟨_, hmem, href⟩ := List.mem_flatMap.mp hunit
    obtain ⟨unit, hunit, rfl⟩ := List.mem_map.mp hmem
    obtain ⟨globals, subprograms, hlists⟩ := h.units unit hunit
    exact hlists.partOf? href
  · obtain ⟨_, hmem, href⟩ := List.mem_flatMap.mp hfunction
    obtain ⟨f, hf, rfl⟩ := List.mem_map.mp hmem
    unfold Index.metAs at href
    split at href
    · next hpart =>
      rw [hpart]
      refine h.functions f hf ref ?_
      rw [Option.mem_toList] at href
      dsimp only at href
      cases hsubprogram : s.subprogramOf? f with
      | none =>
        rw [hsubprogram] at href
        cases href
      | some subprogram =>
        rw [hsubprogram] at href
        exact congrArg some href
    · cases href

end Store

/-! ## What an index makes of it -/

namespace Index

variable {kind : Ref → Part → Prop} {past : Part → List Ref} {index : Index} {part : Part}
  {ref : Ref}

/-- An index knows what one of its parts lists. -/
theorem knows_iff : index.knows ref = true ↔ ∃ part, ref ∈ index.listed part := by
  simp only [knows, Bool.or_eq_true, List.contains_iff_mem]
  constructor
  · rintro ((h | h) | h)
    · exact ⟨.units, h⟩
    · exact ⟨.subprograms, h⟩
    · exact ⟨.globals, h⟩
  · rintro ⟨part, h⟩
    cases part with
    | units => exact .inl (.inl h)
    | subprograms => exact .inl (.inr h)
    | globals => exact .inr h

/-- Adding to one list leaves the others. -/
theorem listed_add (index : Index) (part p : Part) (ref : Ref) :
    (index.add part (some ref)).listed p =
      index.listed p ++ if index.knows ref then [] else metAs part [ref] p := by
  cases hknows : index.knows ref <;> cases part <;> cases p <;>
    simp [add, addUnit, addSubprogram, addGlobal, listed, metAs, hknows]

theorem add_none (index : Index) (part : Part) : index.add part none = index := by
  cases part <;> rfl

/-- An index is what its parts list. -/
theorem ext_listed {index' : Index} (h : ∀ part, index'.listed part = index.listed part) :
    index' = index := by
  obtain ⟨units, subprograms, globals⟩ := index
  obtain ⟨units', subprograms', globals'⟩ := index'
  obtain rfl := h .units
  obtain rfl := h .subprograms
  obtain rfl := h .globals
  rfl

/-- An index lists what has been met, without the repetitions, and nothing has been met for two
lists. -/
structure Gathers (kind : Ref → Part → Prop) (past : Part → List Ref) (index : Index) : Prop where
  listed : ∀ part, index.listed part = (past part).eraseDups
  kinds : ∀ part, ∀ ref ∈ past part, kind ref part

theorem gathers_empty (kind : Ref → Part → Prop) : Gathers kind (fun _ => []) {} where
  listed part := by cases part <;> rfl
  kinds _ _ h := nomatch h

variable (hkind : ∀ ref p q, kind ref p → kind ref q → p = q)

include hkind

/-- What is met for a list is known if and only if it has been met for that list before. -/
theorem Gathers.knows_iff (h : Gathers kind past index) (href : kind ref part) :
    index.knows ref = true ↔ ref ∈ past part := by
  rw [Index.knows_iff]
  constructor
  · rintro ⟨part', hmem⟩
    rw [h.listed part', List.mem_eraseDups] at hmem
    rwa [hkind ref part part' href (h.kinds part' ref hmem)]
  · exact fun hmem => ⟨part, by rwa [h.listed part, List.mem_eraseDups]⟩

/-- One more meeting. -/
theorem Gathers.add (h : Gathers kind past index) (part : Part) (slot : Slot)
    (hslot : ∀ ref ∈ slot.toList, kind ref part) :
    Gathers kind (fun p => past p ++ metAs part slot.toList p) (index.add part slot) := by
  cases slot with
  | none =>
    rw [add_none]
    simpa [metAs] using h
  | some ref =>
    have href : kind ref part := hslot ref List.mem_cons_self
    refine ⟨fun p => ?_, fun p ref' hmem => ?_⟩
    · rw [listed_add, h.listed p]
      by_cases hp : p = part
      · subst hp
        simp only [metAs, if_true, Option.toList_some, eraseDups_concat, h.knows_iff hkind href]
        split
        · rw [List.append_nil]
        · rfl
      · simp [metAs, hp]
    · rcases List.mem_append.mp hmem with hmem | hmem
      · exact h.kinds p ref' hmem
      · unfold metAs at hmem
        split at hmem
        · next hp =>
          rw [hp]
          exact hslot ref' hmem
        · cases hmem

omit hkind in
/-- Meetings in several steps, one after another. -/
theorem Gathers.foldl {α : Type} (h : Gathers kind past index) (l : List α)
    (step : Index → α → Index) (met : α → Part → List Ref)
    (hstep : ∀ a ∈ l, ∀ {past index}, Gathers kind past index →
      Gathers kind (fun p => past p ++ met a p) (step index a)) :
    Gathers kind (fun p => past p ++ l.flatMap fun a => met a p) (l.foldl step index) := by
  induction l generalizing past index with
  | nil => simpa using h
  | cons a rest ih =>
    have hrest := ih (hstep a List.mem_cons_self h)
      fun b hb => hstep b (List.mem_cons_of_mem _ hb)
    simpa [List.append_assoc] using hrest

/-- Adding the entries of a list to a part gathers them behind what has been met. -/
theorem Gathers.foldl_add (h : Gathers kind past index) (part : Part) (slots : List Slot)
    (hslots : ∀ ref ∈ slots.filterMap id, kind ref part) :
    Gathers kind (fun p => past p ++ metAs part (slots.filterMap id) p)
      (slots.foldl (·.add part) index) := by
  have hmet : ∀ p, metAs part (slots.filterMap id) p =
      slots.flatMap fun slot => metAs part slot.toList p := by
    intro p
    unfold metAs
    split
    · induction slots with
      | nil => rfl
      | cons slot rest ih => cases slot <;> simp_all
    · simp
  simp only [hmet]
  refine h.foldl slots _ _ fun slot hslot _ _ h' => ?_
  refine h'.add hkind part slot fun ref href => hslots ref ?_
  exact List.mem_filterMap.mpr ⟨slot, hslot, Option.mem_toList.mp href⟩

/-- What is met in a unit. -/
theorem Gathers.addLists (h : Gathers kind past index) {unit : Slot}
    {globals subprograms : List Slot}
    (hunit : ∀ part, ∀ ref ∈ metIn (unit, some (globals, subprograms)) part, kind ref part) :
    Gathers kind (fun p => past p ++ metIn (unit, some (globals, subprograms)) p)
      (index.addLists unit (globals, subprograms)) := by
  have hfirst := h.add hkind .units unit (hunit .units)
  have hglobals := hfirst.foldl_add hkind .globals globals (hunit .globals)
  have hall := hglobals.foldl_add hkind .subprograms subprograms (hunit .subprograms)
  have hmet : ∀ p, past p ++ metIn (unit, some (globals, subprograms)) p =
      past p ++ metAs .units unit.toList p ++ metAs .globals (globals.filterMap id) p ++
        metAs .subprograms (subprograms.filterMap id) p := by
    intro p
    cases p <;> simp [metIn, metAs]
  simp only [hmet]
  exact hall

/-- Going through sources that are there adds what they mention. -/
theorem Gathers.ofSources (h : Gathers kind past index) {sources : Sources}
    (hunits : ∀ unit ∈ sources.units, unit.2.isSome)
    (hfunctions : ∀ f ∈ sources.functions, f.2.isSome)
    (hkinds : ∀ part, ∀ ref ∈ sources.mentions part, kind ref part) :
    ∃ next, (ofSources sources).run.run index = (.ok (), next) ∧
      Gathers kind (fun p => past p ++ sources.mentions p) next := by
  have hmet : Gathers kind (fun p => past p ++ sources.units.flatMap fun unit => metIn unit p)
      (sources.units.foldl (fun index unit => index.addLists unit.1 (unit.2.getD ([], [])))
        index) := by
    refine h.foldl _ _ metIn fun unit hunit _ _ h' => ?_
    obtain ⟨slot, lists⟩ := unit
    obtain ⟨⟨globals, subprograms⟩, rfl⟩ := Option.isSome_iff_exists.mp (hunits _ hunit)
    refine h'.addLists hkind fun part ref href => hkinds part ref ?_
    exact List.mem_append_left _ (List.mem_flatMap.mpr ⟨_, hunit, href⟩)
  have hall := hmet.foldl sources.functions
    (fun index f => index.addSubprogram (f.2.getD none))
    (fun f => metAs .subprograms (f.2.getD none).toList) fun f hf _ _ h' => by
      refine h'.add hkind .subprograms _ fun ref href => hkinds .subprograms ref ?_
      refine List.mem_append_right _ (List.mem_flatMap.mpr ⟨f, hf, ?_⟩)
      simpa [metAs] using href
  refine ⟨_, run_ofSources hunits hfunctions index, ?_⟩
  simpa only [Sources.mentions, List.append_assoc] using hall

/-- Going through a module adds what it leads to. -/
theorem Gathers.ofModule (h : Gathers kind past index) {s : Store} {module : ModuleId}
    (hmodule : s.Has (.module module)) (hindexable : s.Indexable module)
    (hfunctions : ∀ f ∈ s.functionsIn module, s.Has (.function f))
    (hkinds : ∀ ref part, s.partOf? ref = some part → kind ref part) :
    ∃ next, (ofModule s module).run.run index = (.ok (), next) ∧
      Gathers kind (fun p => past p ++ (s.sources module).mentions p) next := by
  rw [ofModule_eq hmodule]
  exact h.ofSources hkind hindexable.units.isSome_lists (Store.isSome_subprograms hfunctions)
    fun part ref href => hkinds ref part (hindexable.partOf? href)

end Index

/-! ## Several modules -/

namespace Index

variable {kind : Ref → Part → Prop} {past more : Part → List Ref} {index next : Index}

/-- Goes through modules, one after another, each as it is in a store of its own. -/
def ofModules (calls : List (Store × ModuleId)) : ExceptT Fault (StateM Index) Unit :=
  calls.forM fun call => ofModule call.1 call.2

/-- What modules lead to, each in its store. -/
def mentionsIn (calls : List (Store × ModuleId)) (part : Part) : List Ref :=
  calls.flatMap fun call => (call.1.sources call.2).mentions part

/-- Going through modules adds what they lead to, module by module. -/
theorem Gathers.ofModules (hkind : ∀ ref p q, kind ref p → kind ref q → p = q)
    (h : Gathers kind past index) {calls : List (Store × ModuleId)}
    (hcalls : ∀ call ∈ calls, call.1.Has (.module call.2) ∧ call.1.Indexable call.2 ∧
      (∀ f ∈ call.1.functionsIn call.2, call.1.Has (.function f)) ∧
      ∀ ref part, call.1.partOf? ref = some part → kind ref part) :
    ∃ next, (ofModules calls).run.run index = (.ok (), next) ∧
      Gathers kind (fun p => past p ++ mentionsIn calls p) next := by
  induction calls generalizing past index with
  | nil => exact ⟨index, rfl, by simpa [mentionsIn] using h⟩
  | cons call rest ih =>
    obtain ⟨hmodule, hindexable, hfunctions, hkinds⟩ := hcalls call List.mem_cons_self
    obtain ⟨between, hfirst, hbetween⟩ := h.ofModule hkind hmodule hindexable hfunctions hkinds
    obtain ⟨next, hrest, hnext⟩ :=
      ih hbetween fun call hcall => hcalls call (List.mem_cons_of_mem _ hcall)
    refine ⟨next, ?_, by simpa [mentionsIn, List.append_assoc] using hnext⟩
    have hboth : ofModules (call :: rest) =
        (do Index.ofModule call.1 call.2; ofModules rest) := rfl
    rw [hboth, ExceptT.run_bind, StateT.run_bind, hfirst]
    exact hrest

/-- Meeting again what has been met changes nothing. -/
theorem Gathers.eq_of_subset (h : Gathers kind past index)
    (hnext : Gathers kind (fun p => past p ++ more p) next) (hmore : ∀ p, more p ⊆ past p) :
    next = index :=
  ext_listed fun p => by
    rw [hnext.listed p, h.listed p, eraseDups_append_of_subset (hmore p)]

/-- The descriptor that is found is the one that was met first, as long as what is listed is
there. -/
theorem Gathers.descriptorOf {s : Store} (h : Gathers kind past index)
    (hglobals : ∀ ref ∈ index.globals, s.IsGlobal ref) (storage : Slot) :
    descriptorOf s index storage = .ok ((past .globals).find? fun ref =>
      (s.nodeIn? (some ref)).bind Node.storage? = some storage) := by
  unfold Index.descriptorOf
  rw [firstDescriptor_eq hglobals, show index.globals = _ from h.listed .globals, find?_eraseDups]

end Index

end SsaDebugInfo
