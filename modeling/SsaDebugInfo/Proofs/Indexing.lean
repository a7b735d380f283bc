import SsaDebugInfo.Proofs.DebugIndex
import SsaDebugInfo.Proofs.Store.Aspects
import SsaDebugInfo.Proofs.Store.Touch

/-!
# Remembered indexes

The index that the state of a module remembers is up to date (`Store.UpToDate`) if it is the one
that the sources of the module make. It stays so as long as the sources stay as they are, and these
change by descriptions that concern the module and by nothing else.

What an index remembers as a global descriptor is listed as one by a unit in any case, since units
stay in their modules and descriptors in their units (`Store.Traced`).

- `Touches.sources`, `Store.sources_collect`: what changes the sources of a module.
- `Touches.upToDate`, `Store.UpToDate.collect`: what keeps a remembered index up to date.
- `Touch.traced`, `Store.Traced.collect`: what an index remembers as a global descriptor.
-/

namespace SsaDebugInfo

/-- Whether a change of metadata bears on what the index of a module is made from. -/
def Description.Concerns (s : Store) (module : ModuleId) : Description → Prop
  | addUnit m _ | addFunction m _ => m = module
  | extendUnit unit _ _ => .ofNode unit ∈ s.unitsOf module
  | setSubprogram function _ => function ∈ s.functionsIn module

instance (s : Store) (module : ModuleId) : DecidablePred (Description.Concerns s module)
  | .addUnit m _ | .addFunction m _ => inferInstanceAs (Decidable (m = module))
  | .extendUnit unit _ _ => inferInstanceAs (Decidable (.ofNode unit ∈ s.unitsOf module))
  | .setSubprogram function _ => inferInstanceAs (Decidable (function ∈ s.functionsIn module))

/-- Nodes that tell the same list the same. -/
theorem Node.lists?_of_core {m n : Node} (h : n.core = m.core) : n.lists? = m.lists? := by
  cases m <;> cases n <;> simp_all [core, rename, lists?]

namespace Store

variable (s : Store) (module : ModuleId)

/-- The units and functions of a module are there. -/
structure HasSources : Prop where
  units : ∀ unit ∈ s.unitsOf module, s.HasIn unit
  functions : ∀ f ∈ s.functionsIn module, s.Has (.function f)

/-- The index that the state of a module remembers. -/
def indexOf? : Option Index :=
  (s.get? module).bind fun m => m.state.bind (·.index)

/-- If the state of a module remembers an index, it is the one that the module's sources make. -/
def UpToDate : Prop :=
  ∀ index, s.indexOf? module = some index → index = Index.made (s.sources module)

variable {s t : Store} {module : ModuleId} {c : Scope}

/-! ## What sources are made of -/

/-- In a closed store all that a module is indexed from is there. -/
theorem Closed.hasSources (hs : s.Closed) (module : ModuleId) : s.HasSources module where
  units unit hunit := by
    unfold unitsOf at hunit
    cases hm : s.get? module with
    | none =>
      rw [hm] at hunit
      cases hunit
    | some m =>
      rw [hm] at hunit
      exact (hs.module hm).units unit hunit
  functions f hf := by
    unfold functionsIn at hf
    cases hm : s.get? module with
    | none =>
      rw [hm] at hf
      cases hf
    | some m =>
      rw [hm] at hf
      exact hasIn_some.mp ((hs.module hm).functions f hf)

/-- A module is indexed from the same if its units and functions, their lists and subprograms are
the same. -/
theorem sources_congr (hunits : t.unitsOf module = s.unitsOf module)
    (hfunctions : t.functionsIn module = s.functionsIn module)
    (hlists : ∀ unit ∈ s.unitsOf module, t.listsIn? unit = s.listsIn? unit)
    (hsubprograms : ∀ f ∈ s.functionsIn module, t.subprogramOf? f = s.subprogramOf? f) :
    t.sources module = s.sources module := by
  unfold sources
  rw [hunits, hfunctions]
  congr 1
  · exact List.map_congr_left fun unit hunit => by rw [hlists unit hunit]
  · exact List.map_congr_left fun f hf => by rw [hsubprograms f hf]

theorem unitsOf_eq : s.unitsOf module = (s.sources module).units.map Prod.fst := by
  simp [sources, Function.comp_def]

theorem functionsIn_eq : s.functionsIn module = (s.sources module).functions.map Prod.fst := by
  simp [sources, Function.comp_def]

/-- A node with the same lists does not change the sources. -/
theorem listsIn?_modify {n : NodeId} {f : Node → Node}
    (hf : ∀ o, s.get? n = some o → (f o).lists? = o.lists?) (unit : Slot) :
    (s.modify n f).listsIn? unit = s.listsIn? unit := by
  unfold listsIn? nodeIn?
  cases unit.node? with
  | none => rfl
  | some id =>
    exact asked_modify (fun o => o.bind Node.lists?) hf id

/-- What is there has the same lists after a node has been added. -/
theorem listsIn?_push {n : Node} {unit : Slot} (hunit : s.HasIn unit) :
    (s.push .node n).listsIn? unit = s.listsIn? unit := by
  unfold listsIn? nodeIn?
  cases hid : unit.node? with
  | none => rfl
  | some id =>
    have hhas : s.Has (.node id) := hunit _ (Slot.node?_eq_some_iff.mp hid)
    show ((s.push .node n).get? id).bind _ = (s.get? id).bind _
    rw [get?_push_of_has id n hhas]

end Store

open Store

variable {s t : Store} {module : ModuleId} {c : Scope}

/-! ## What changes sources -/

/-- A change of a module changes the sources of that module at most, and not even these if it leaves
the units and the functions as they are. -/
theorem Store.sources_modify_module {m : ModuleId} {f : Module → Module}
    (hf : m = module → ∀ o, (f o).units = o.units ∧ (f o).functions = o.functions) :
    (s.modify m f).sources module = s.sources module := by
  have hasked : ∀ {α : Type} (question : Module → List α),
      (m = module → ∀ o, question (f o) = question o) →
      (((s.modify m f).get? module).map question).getD [] =
        ((s.get? module).map question).getD [] := by
    intro α question hquestion
    rw [get?_modify]
    split
    · next h =>
      cases s.get? module with
      | none => rfl
      | some o => exact hquestion h.symm o
    · rfl
  exact sources_congr (hasked (·.units) fun h o => (hf h o).1)
    (hasked (·.functions) fun h o => (hf h o).2) (fun _ _ => rfl) fun _ _ => rfl

/-- A description that does not concern a module changes nothing that it is indexed from. -/
theorem Description.sources_apply {d : Description} (h : ¬ d.Concerns s module) :
    (d.apply s).sources module = s.sources module := by
  cases d with
  | addUnit m unit => exact sources_modify_module fun hm => absurd hm h
  | addFunction m function => exact sources_modify_module fun hm => absurd hm h
  | extendUnit n globals subprograms =>
    refine sources_congr rfl rfl (fun unit hunit => ?_) fun _ _ => rfl
    show (s.modify n _).listsIn? unit = s.listsIn? unit
    unfold listsIn? nodeIn?
    cases hid : unit.node? with
    | none => rfl
    | some id =>
      have hne : id ≠ n := by
        rintro rfl
        rw [Slot.node?_eq_some_iff.mp hid] at hunit
        exact h hunit
      show ((s.modify n _).get? id).bind _ = (s.get? id).bind _
      rw [get?_modify_other s _ hne]
  | setSubprogram function subprogram =>
    refine sources_congr rfl rfl (fun _ _ => rfl) fun f hf => ?_
    have hne : f ≠ function := by
      rintro rfl
      exact h hf
    show ((s.modify function _).get? f).map _ = (s.get? f).map _
    rw [get?_modify_other s _ hne]

/-- A single change leaves the sources of a module as they are unless it is a description that
concerns the module. -/
theorem Touch.sources (h : Touch c s t) (hhas : s.HasSources module)
    (hspares : ∀ d, c.describes d → ¬ d.Concerns s module) :
    t.sources module = s.sources module := by
  have hnode : ∀ n : Node, (s.push .node n).sources module = s.sources module := fun n =>
    sources_congr rfl rfl (fun unit hunit => listsIn?_push (hhas.units unit hunit)) fun _ _ => rfl
  cases h with
  | annotate => rfl
  | @change kind id f hf =>
    cases kind with
    | node =>
      exact sources_congr rfl rfl
        (fun unit _ => listsIn?_modify (fun o _ => Node.lists?_of_core (hf o).1) unit)
        fun _ _ => rfl
    | function =>
      refine sources_congr rfl rfl (fun _ _ => rfl) fun g _ => ?_
      exact asked_modify (Option.map Function.subprogram)
        (fun o _ => congrArg some (hf o).subprogram) g
    | module => exact sources_modify_module fun _ o => ⟨(hf o).units, (hf o).functions⟩
    | _ => rfl
  | @create kind object hnew =>
    cases kind with
    | node => exact hnode object
    | function =>
      refine sources_congr rfl rfl (fun _ _ => rfl) fun f hf => ?_
      show ((s.push .function object).get? f).map _ = (s.get? f).map _
      rw [get?_push_of_has f object (hhas.functions f hf)]
    | module =>
      by_cases hid : module = s.nextId .module
      · -- a module that was not there had no sources, and a new one has none
        have hunits : (s.push .module object).unitsOf module = s.unitsOf module := by
          rw [unitsOf, unitsOf, hid, get?_push_self, get?_nextId]
          exact hnew.2.1
        have hfunctions : (s.push .module object).functionsIn module = s.functionsIn module := by
          rw [functionsIn, functionsIn, hid, get?_push_self, get?_nextId]
          exact hnew.1
        exact sources_congr hunits hfunctions (fun _ _ => rfl) fun _ _ => rfl
      · have hget := get?_push_other s object hid
        exact sources_congr (by rw [unitsOf, unitsOf, hget])
          (by rw [functionsIn, functionsIn, hget]) (fun _ _ => rfl) fun _ _ => rfl
    | _ => rfl
  | addHandle => exact hnode _
  | index m => exact sources_modify_module fun _ _ => ⟨rfl, rfl⟩
  | describe d hd => exact Description.sources_apply (hspares d hd)

/-- Changes that concern a module in nothing leave its sources as they are. -/
theorem Touches.sources (h : Touches c s t) (hs : s.Closed)
    (hspares : ∀ d, c.describes d → ¬ d.Concerns s module) :
    t.sources module = s.sources module := by
  refine (h.preserves (P := fun t => s.Extends t ∧ t.sources module = s.sources module)
    ?_ ⟨.refl s, rfl⟩).2
  rintro t u ⟨hextends, hsources⟩ htouch
  have hunits : t.unitsOf module = s.unitsOf module := by rw [unitsOf_eq, hsources, ← unitsOf_eq]
  have hfunctions : t.functionsIn module = s.functionsIn module := by
    rw [functionsIn_eq, hsources, ← functionsIn_eq]
  have hhas := hs.hasSources module
  refine ⟨hextends.trans htouch.extends, (htouch.sources ⟨?_, ?_⟩ fun d hd => ?_).trans hsources⟩
  · rw [hunits]
    exact fun unit hunit => hextends.hasIn (hhas.units unit hunit)
  · rw [hfunctions]
    exact fun f hf => hextends.has (hhas.functions f hf)
  · have hspared := hspares d hd
    cases d with
    | addUnit => exact hspared
    | addFunction => exact hspared
    | extendUnit unit =>
      show ¬ .ofNode unit ∈ t.unitsOf module
      rwa [hunits]
    | setSubprogram function =>
      show ¬ function ∈ t.functionsIn module
      rwa [hfunctions]

/-- A module that is live has the same sources after a collection. -/
theorem Store.sources_collect {roots : List Slot} (hlive : s.Live roots (.module module)) :
    (s.collect roots).sources module = s.sources module := by
  have hget : (s.collect roots).get? module = s.get? module := by
    rw [get?_collect (by decide)]
    exact if_pos hlive
  cases hm : s.get? module with
  | none =>
    have hnone : ∀ {t : Store}, t.get? module = none → t.sources module = {} := by
      intro t ht
      rw [Store.sources, unitsOf, functionsIn, ht]
      rfl
    rw [hnone hm, hnone (hget.trans hm)]
  | some m =>
    have hsame : ∀ {kind : Kind} (id : Id kind), kind ≠ .context → some id.ref ∈ m.slots →
        (s.collect roots).get? id = s.get? id := by
      intro kind id hkind hheld
      rw [get?_collect hkind, if_pos (live_of_held module hm hlive hheld)]
    have hunits : ∀ unit ∈ s.unitsOf module, unit ∈ m.slots := by
      rw [unitsOf, hm]
      intro unit (hunit : unit ∈ m.units)
      simp [Module.slots, hunit]
    have hfunctions : ∀ f ∈ s.functionsIn module, some (Ref.function f) ∈ m.slots := by
      rw [functionsIn, hm]
      intro f (hf : f ∈ m.functions)
      simp [Module.slots, hf]
    refine sources_congr (by rw [unitsOf, unitsOf, hget]) (by rw [functionsIn, functionsIn, hget])
      (fun unit hunit => ?_) fun f hf => ?_
    · unfold listsIn? nodeIn?
      cases hid : unit.node? with
      | none => rfl
      | some n =>
        rw [Slot.node?_eq_some_iff.mp hid] at hunit
        show ((s.collect roots).get? n).bind _ = (s.get? n).bind _
        rw [hsame n (by decide) (hunits _ hunit)]
    · rw [subprogramOf?, subprogramOf?, hsame f (by decide) (hfunctions f hf)]

/-! ## What keeps an index up to date -/

/-- Changing a module changes its own index only. -/
theorem Store.indexOf?_modify (m : ModuleId) (f : Module → Module) :
    (s.modify m f).indexOf? module =
      if module = m then (s.get? module).bind fun o => (f o).state.bind (·.index)
      else s.indexOf? module := by
  unfold indexOf?
  rw [get?_modify]
  split
  · rw [Option.bind_map]
    rfl
  · rfl

/-- A single change leaves the index that a module remembers, makes the module forget it, or, if
sources cannot change, remember the one that its sources make. -/
theorem Touch.indexOf? (h : Touch c s t) (module : ModuleId) :
    t.indexOf? module = s.indexOf? module ∨ t.indexOf? module = none ∨
      (∀ d, ¬ c.describes d) ∧ s.Has (.module module) ∧
        t.indexOf? module = some (Index.made (s.sources module)) := by
  -- most changes of a module leave its state alone or empty it
  have hkept : ∀ (m : ModuleId) {f : Module → Module},
      (∀ o, (f o).state = o.state ∨ (f o).state = some {}) →
      (s.modify m f).indexOf? module = s.indexOf? module ∨
        (s.modify m f).indexOf? module = none := by
    intro m f hf
    rw [indexOf?_modify, Store.indexOf?]
    split
    · cases s.get? module with
      | none => exact .inr rfl
      | some o =>
        show (f o).state.bind _ = o.state.bind _ ∨ (f o).state.bind _ = none
        rcases hf o with hsame | hempty
        · exact .inl (by rw [hsame])
        · exact .inr (by rw [hempty]; rfl)
    · exact .inl rfl
  cases h with
  | annotate => exact .inl rfl
  | @change kind id f hf =>
    cases kind with
    | module => exact (hkept id fun o => (hf o).state).imp_right .inl
    | _ => exact .inl rfl
  | @create kind object hnew =>
    cases kind with
    | module =>
      unfold Store.indexOf?
      rw [get?_push]
      split
      · refine .inr (.inl ?_)
        show object.state.bind _ = none
        rw [hnew.2.2]
        rfl
      · exact .inl rfl
    | _ => exact .inl rfl
  | addHandle => exact .inl rfl
  | index m hdescribes =>
    rw [indexOf?_modify]
    split
    · next heq =>
      subst heq
      cases hm : s.get? module with
      | none => exact .inr (.inl rfl)
      | some o =>
        have hhas : s.Has (.module module) := Option.isSome_iff_exists.mpr ⟨o, hm⟩
        refine .inr (.inr ⟨hdescribes, hhas, ?_⟩)
        rw [Index.made, ← Index.ofModule_eq hhas]
        rfl
    · exact .inl rfl
  | describe d =>
    cases d with
    | addUnit m =>
      refine (hkept m ?_).imp_right .inl
      exact fun _ => .inl rfl
    | addFunction m =>
      refine (hkept m ?_).imp_right .inl
      exact fun _ => .inl rfl
    | extendUnit => exact .inl rfl
    | setSubprogram => exact .inl rfl

/-- A remembered index stays up to date if the changes concern the module in nothing, or have left
its sources as they were. -/
theorem Touches.upToDate (h : Touches c s t) (hs : s.Closed)
    (hspared : (∀ d, c.describes d → ¬ d.Concerns s module) ∨
      t.sources module = s.sources module) (hup : s.UpToDate module) : t.UpToDate module := by
  by_cases hspares : ∀ d, c.describes d → ¬ d.Concerns s module
  · -- the sources are the same all the way
    induction h with
    | refl => exact hup
    | @tail t u hbefore hlast ih =>
      have hsources := Touches.sources hbefore hs hspares
      have hsources' := Touches.sources (hbefore.tail hlast) hs hspares
      have ht := ih (.inl hspares)
      intro index hindex
      rcases hlast.indexOf? module with heq | hnone | ⟨_, _, hmade⟩
      · rw [hsources', ← hsources]
        exact ht index (heq ▸ hindex)
      · rw [hnone] at hindex
        cases hindex
      · rw [hmade] at hindex
        cases hindex
        rw [hsources', ← hsources]
  · -- sources may change, so that no index has been made on the way
    obtain ⟨d, hd⟩ := not_forall.mp hspares
    have hdescribes : c.describes d := by
      by_contra hnot
      exact hd fun h => absurd h hnot
    have hindexes : t.indexOf? module = s.indexOf? module ∨ t.indexOf? module = none := by
      refine h.preserves (P := fun t => t.indexOf? module = s.indexOf? module ∨
        t.indexOf? module = none) (fun {t u} ht htouch => ?_) (.inl rfl)
      rcases htouch.indexOf? module with heq | hnone | ⟨hdescribed, _⟩
      · rwa [heq]
      · exact .inr hnone
      · exact absurd hdescribes (hdescribed d)
    intro index hindex
    rcases hindexes with heq | hnone
    · rw [hspared.resolve_left hspares]
      exact hup index (heq ▸ hindex)
    · rw [hnone] at hindex
      cases hindex

/-- An index that is remembered after a collection was remembered before, and the sources of its
module are the same. -/
theorem Store.indexOf?_of_collect {roots : List Slot} {index : Index}
    (h : (s.collect roots).indexOf? module = some index) :
    s.indexOf? module = some index ∧ (s.collect roots).sources module = s.sources module := by
  obtain ⟨m, hm, hstate⟩ := Option.bind_eq_some_iff.mp h
  obtain ⟨hm, hlive⟩ := get?_of_get?_collect (by decide) hm
  constructor
  · rw [Store.indexOf?, hm]
    exact hstate
  · exact sources_collect hlive

/-- Collection keeps an index up to date. -/
theorem Store.UpToDate.collect {roots : List Slot} (h : s.UpToDate module) :
    (s.collect roots).UpToDate module := by
  intro index hindex
  obtain ⟨hindex, hsources⟩ := indexOf?_of_collect hindex
  rw [hsources]
  exact h index hindex

/-! ## What a remembered index lists -/

/-- A descriptor of a module is listed by one of its units. -/
theorem mem_descriptors {ref : Ref} : ref ∈ (s.sources module).descriptors ↔
    ∃ unit ∈ s.unitsOf module, ∃ lists, s.listsIn? unit = some lists ∧ some ref ∈ lists.1 := by
  unfold Sources.descriptors Store.sources
  rw [List.flatMap_map, List.mem_flatMap]
  refine exists_congr fun unit => and_congr_right fun _ => ?_
  cases s.listsIn? unit <;> simp

/-- A single change takes no unit from a module. -/
theorem Touch.unitsOf (h : Touch c s t) (hmodule : s.Has (.module module)) {unit : Slot}
    (hunit : unit ∈ s.unitsOf module) : unit ∈ t.unitsOf module := by
  obtain ⟨o, ho⟩ := Option.isSome_iff_exists.mp hmodule
  have hsame : t.get? module = some o → unit ∈ t.unitsOf module := by
    intro hget
    rw [Store.unitsOf, ho] at hunit
    rwa [Store.unitsOf, hget]
  have hmodify : ∀ (m : ModuleId) {f : Module → Module}, (∀ o, o.units ⊆ (f o).units) →
      unit ∈ (s.modify m f).unitsOf module := by
    intro m f hf
    rw [Store.unitsOf, ho] at hunit
    rw [Store.unitsOf, get?_modify, ho]
    split
    · exact hf o hunit
    · exact hunit
  cases h with
  | annotate => exact hsame ho
  | @change kind id f hf =>
    cases kind with
    | module => exact hmodify id fun o => by rw [(hf o).units]; exact List.Subset.refl _
    | _ => exact hsame ho
  | @create kind object hnew =>
    cases kind with
    | module => exact hsame ((get?_push_of_has module _ hmodule).trans ho)
    | _ => exact hsame ho
  | addHandle => exact hsame ho
  | index m => exact hmodify m fun _ => List.Subset.refl _
  | describe d =>
    cases d with
    | addUnit m => exact hmodify m fun _ => List.subset_append_left _ _
    | addFunction m => exact hmodify m fun _ => List.Subset.refl _
    | extendUnit => exact hsame ho
    | setSubprogram => exact hsame ho

/-- A single change takes no global variable from a list. -/
theorem Touch.listsIn? (h : Touch c s t) {unit : Slot} {lists : List Slot × List Slot}
    (hlists : s.listsIn? unit = some lists) :
    ∃ lists', t.listsIn? unit = some lists' ∧ lists.1 ⊆ lists'.1 := by
  obtain ⟨n, hn, hlisted⟩ := Option.bind_eq_some_iff.mp hlists
  obtain ⟨id, hid, hget⟩ := Option.bind_eq_some_iff.mp hn
  have hlater : ∀ {t : Store} {n' : Node}, t.get? id = some n' → n'.lists? = some lists →
      ∃ lists', t.listsIn? unit = some lists' ∧ lists.1 ⊆ lists'.1 := by
    intro t n' hget' hlisted'
    refine ⟨lists, ?_, List.Subset.refl _⟩
    unfold Store.listsIn? nodeIn?
    rw [hid, Option.bind_some, hget']
    exact hlisted'
  have hpush : ∀ o : Node, (s.push .node o).get? id = some n := by
    intro o
    have hhas : s.Has (.node id) := Option.isSome_iff_exists.mpr ⟨n, hget⟩
    rw [get?_push_of_has id o hhas, hget]
  cases h with
  | annotate => exact hlater hget hlisted
  | @change kind m f hf =>
    cases kind with
    | node => exact ⟨lists, (listsIn?_modify (fun o _ => Node.lists?_of_core (hf o).1) unit).trans
        hlists, List.Subset.refl _⟩
    | _ => exact hlater hget hlisted
  | @create kind object hnew =>
    cases kind with
    | node => exact hlater (hpush object) hlisted
    | _ => exact hlater hget hlisted
  | addHandle => exact hlater (hpush _) hlisted
  | index => exact hlater hget hlisted
  | describe d =>
    cases d with
    | addUnit => exact hlater hget hlisted
    | addFunction => exact hlater hget hlisted
    | extendUnit m globals subprograms =>
      by_cases hm : id = m
      · subst hm
        have hextended : (s.modify id (·.extend globals subprograms)).get? id =
            some (n.extend globals subprograms) := by
          rw [get?_modify_self, hget]
          rfl
        cases n with
        | unit source producer gs sps =>
          cases hlisted
          refine ⟨(gs ++ globals, sps ++ subprograms), ?_, List.subset_append_left _ _⟩
          show (s.modify id _).listsIn? unit = _
          unfold Store.listsIn? nodeIn?
          rw [hid, Option.bind_some, hextended]
          rfl
        | _ => cases hlisted
      · exact hlater ((get?_modify_other s _ hm).trans hget) hlisted
    | setSubprogram => exact hlater hget hlisted

/-- Whatever is remembered as a global descriptor is listed as one by a unit of the module. -/
def Store.Traced (s : Store) : Prop :=
  ∀ module index, s.indexOf? module = some index →
    ∀ ref ∈ index.globals, ref ∈ (s.sources module).descriptors

/-- A single change leaves every indexed global variable traced to a unit. -/
theorem Touch.traced (h : Touch c s t) (hs : s.Traced) : t.Traced := by
  intro module index hindex ref href
  have hgrow : s.Has (.module module) → ref ∈ (s.sources module).descriptors →
      ref ∈ (t.sources module).descriptors := by
    intro hmodule hlisted
    obtain ⟨unit, hunit, lists, hlists, hmem⟩ := mem_descriptors.mp hlisted
    obtain ⟨lists', hlists', hsub⟩ := h.listsIn? hlists
    exact mem_descriptors.mpr ⟨unit, h.unitsOf hmodule hunit, lists', hlists', hsub hmem⟩
  rcases h.indexOf? module with heq | hnone | ⟨_, hmodule, hmade⟩
  · rw [heq] at hindex
    obtain ⟨o, ho, _⟩ := Option.bind_eq_some_iff.mp hindex
    exact hgrow (Option.isSome_iff_exists.mpr ⟨o, ho⟩) (hs module index hindex ref href)
  · rw [hnone] at hindex
    cases hindex
  · rw [hmade] at hindex
    cases hindex
    exact hgrow hmodule (Index.globals_made href)

/-- Collection leaves every indexed global variable traced to a unit. -/
theorem Store.Traced.collect {roots : List Slot} (hs : s.Traced) : (s.collect roots).Traced := by
  intro module index hindex
  obtain ⟨hindex, hsources⟩ := indexOf?_of_collect hindex
  rw [hsources]
  exact hs module index hindex

theorem Store.traced_initial : Store.initial.Traced := by
  intro module index hindex
  rw [Store.indexOf?, get?_initial module (by decide)] at hindex
  cases hindex

end SsaDebugInfo
