import SsaDebugInfo.Proofs.Edit
import SsaDebugInfo.Proofs.Act.PlainFaults

/-!
# Modules hold what is there

Filling modules, making their state and indexing their descriptors is done by edits that concern no
operand. An index lists only what the units and functions of its module lead to.

- `Index.lists_ofModule`: indexing a module that is there lists only what is there.
- `keeps_addFunction` and the like: what is done to modules.
-/

namespace SsaDebugInfo

open Act Store

/-! ## Indexing -/

namespace Index

variable {α β : Type} {P : Ref → Prop}

/-- Whether an action on an index faults plainly and adds only what has a property. -/
def Lists (P : Ref → Prop) (act : ExceptT Fault (StateM Index) α) : Prop :=
  ∀ index, (∀ ref ∈ index.refs, P ref) →
    Plain (act.run.run index).1 ∧ ∀ ref ∈ (act.run.run index).2.refs, P ref

/-- Steps in sequence list only what has a property if each of them does. -/
theorem Lists.bind {first : ExceptT Fault (StateM Index) α}
    {second : α → ExceptT Fault (StateM Index) β} (hfirst : Lists P first)
    (hsecond : ∀ a, Lists P (second a)) : Lists P (first >>= second) := by
  intro index hindex
  have h := hfirst index hindex
  rw [ExceptT.run_bind, StateT.run_bind]
  generalize first.run.run index = result at h ⊢
  obtain ⟨_ | a, next⟩ := result
  · exact ⟨plain_error (h.1 _ rfl), h.2⟩
  · exact hsecond a next h.2

theorem lists_modify {f : Index → Index}
    (hf : ∀ index, (∀ ref ∈ index.refs, P ref) → ∀ ref ∈ (f index).refs, P ref) :
    Lists P (modify f : ExceptT Fault (StateM Index) Unit) :=
  fun index hindex => ⟨plain_ok _, hf index hindex⟩

theorem lists_throw {fault : Fault} (h : fault.isBookkeeping = false) :
    Lists P (throw fault : ExceptT Fault (StateM Index) α) :=
  fun _ hindex => ⟨plain_error h, hindex⟩

/-- What is missing is a plain fault; what is there is gone on with. -/
theorem lists_found {o : Option α} {second : α → ExceptT Fault (StateM Index) β}
    (h : ∀ a, o = some a → Lists P (second a)) :
    Lists P (MonadExcept.ofExcept (found o) >>= second) := by
  cases o with
  | none => exact lists_throw rfl
  | some a => exact h a rfl

/-- An action on each entry of a list lists only what has a property if it does on one. -/
theorem lists_forM {f : α → ExceptT Fault (StateM Index) Unit} {l : List α}
    (hf : ∀ a ∈ l, Lists P (f a)) : Lists P (l.forM f) := by
  induction l with
  | nil => exact fun _ hindex => ⟨plain_ok _, hindex⟩
  | cons a rest ih =>
    exact (hf a List.mem_cons_self).bind fun _ => ih fun b hb => hf b (List.mem_cons_of_mem _ hb)

/-- Each way to list an object adds at most that object. -/
theorem forall_refs_add {index : Index} (hindex : ∀ ref ∈ index.refs, P ref) {slot : Slot}
    (hslot : ∀ ref, slot = some ref → P ref) :
    (∀ ref ∈ (index.addUnit slot).refs, P ref) ∧ (∀ ref ∈ (index.addSubprogram slot).refs, P ref) ∧
      ∀ ref ∈ (index.addGlobal slot).refs, P ref := by
  cases slot with
  | none => exact ⟨hindex, hindex, hindex⟩
  | some ref =>
    have href := hslot ref rfl
    rw [addUnit, addSubprogram, addGlobal]
    by_cases hknows : index.knows ref = true
    · rw [if_pos hknows, if_pos hknows, if_pos hknows]
      exact ⟨hindex, hindex, hindex⟩
    · rw [if_neg hknows, if_neg hknows, if_neg hknows]
      simp only [refs, List.mem_append, List.mem_singleton] at hindex ⊢
      refine ⟨?_, ?_, ?_⟩
      · rintro ref' (((h | rfl) | h) | h)
        · exact hindex ref' (.inl (.inl h))
        · exact href
        · exact hindex ref' (.inl (.inr h))
        · exact hindex ref' (.inr h)
      · rintro ref' ((h | h | rfl) | h)
        · exact hindex ref' (.inl (.inl h))
        · exact hindex ref' (.inl (.inr h))
        · exact href
        · exact hindex ref' (.inr h)
      · rintro ref' ((h | h) | h | rfl)
        · exact hindex ref' (.inl (.inl h))
        · exact hindex ref' (.inl (.inr h))
        · exact hindex ref' (.inr h)
        · exact href

/-- What holds of all that is listed holds when entries of which it holds are added in turn. -/
theorem forall_refs_foldl {add : Index → Slot → Index}
    (hadd : ∀ index, (∀ ref ∈ index.refs, P ref) → ∀ slot, (∀ ref, slot = some ref → P ref) →
      ∀ ref ∈ (add index slot).refs, P ref)
    {slots : List Slot} (hslots : ∀ slot ∈ slots, ∀ ref, slot = some ref → P ref) {index : Index}
    (hindex : ∀ ref ∈ index.refs, P ref) : ∀ ref ∈ (slots.foldl add index).refs, P ref := by
  induction slots generalizing index with
  | nil => exact hindex
  | cons slot rest ih =>
    exact ih (fun slot' h => hslots slot' (List.mem_cons_of_mem _ h))
      (hadd index hindex slot (hslots slot List.mem_cons_self))

variable {s : Store}

/-- The tree of a unit that is there has only what is there. -/
theorem lists_addUnitTree (hs : s.Closed) {unit : Slot} (hunit : s.HasIn unit) :
    Lists s.Has (addUnitTree s unit) := by
  refine (lists_modify fun index hindex => (forall_refs_add hindex hunit).1).bind fun _ => ?_
  split
  · next source producer globals subprograms hin =>
    obtain ⟨id, hid, hnode⟩ := Option.bind_eq_some_iff.mp hin
    have hheld := hs.held id hnode
    refine (lists_modify fun index hindex => forall_refs_foldl
      (fun index h slot hslot => (forall_refs_add h hslot).2.2) (fun slot hslot => ?_) hindex).bind
      fun _ => lists_modify fun index hindex => forall_refs_foldl
      (fun index h slot hslot => (forall_refs_add h hslot).2.1) (fun slot hslot => ?_) hindex
    · exact hheld slot (List.mem_cons_of_mem _ (List.mem_append_left _ hslot))
    · exact hheld slot (List.mem_cons_of_mem _ (List.mem_append_right _ hslot))
  · exact lists_throw rfl

/-- Indexing a module lists only what is there. -/
theorem lists_ofModule (hs : s.Closed) (module : ModuleId) : Lists s.Has (ofModule s module) := by
  refine lists_found fun m hm => ?_
  have hholds := hs.module hm
  refine (lists_forM fun unit hunit => lists_addUnitTree hs (hholds.units unit hunit)).bind
    fun _ => lists_forM fun f _ => lists_found fun o ho => lists_modify fun index hindex => ?_
  exact (forall_refs_add hindex (hs.function ho).subprogram).2.1

theorem plain_firstDescriptor (s : Store) (storage : Slot) (refs : List Ref) :
    Plain (firstDescriptor s storage refs) := by
  induction refs with
  | nil => exact plain_ok _
  | cons ref rest ih =>
    unfold firstDescriptor
    split
    · split
      · exact plain_ok _
      · exact ih
    · exact plain_error rfl

/-- The descriptor found is one of those listed. -/
theorem firstDescriptor_mem {storage : Slot} {refs : List Ref} {ref : Ref}
    (h : firstDescriptor s storage refs = .ok (some ref)) : ref ∈ refs := by
  induction refs with
  | nil => cases h
  | cons first rest ih =>
    unfold firstDescriptor at h
    split at h
    · split at h
      · cases h
        exact List.mem_cons_self
      · exact List.mem_cons_of_mem _ (ih h)
    · cases h

/-- The descriptor of a variable is there if all that is listed is. -/
theorem hasIn_descriptorOf {index : Index} (hindex : ∀ ref ∈ index.refs, s.Has ref) {storage : Slot}
    {slot : Slot} (h : descriptorOf s index storage = .ok slot) : s.HasIn slot := by
  rintro ref rfl
  exact hindex ref (List.mem_append_right _ (firstDescriptor_mem h))

end Index

variable {d : Discipline} {s : Store}

/-- An index made for the occasion lists only what is there. -/
theorem reads_freshIndex (hs : s.Closed) (module : ModuleId) (times : Nat) :
    (freshIndex module times).Reads s fun index => ∀ ref ∈ index.refs, s.Has ref := by
  induction times with
  | zero => exact reads_pure fun _ h => nomatch h
  | succ times ih =>
    refine ih.bind_reads fun index hindex => reads_get.bind_reads fun t ht => ?_
    subst ht
    have hlists := Index.lists_ofModule hs module index hindex
    generalize (Index.ofModule t module).run.run index = result at hlists ⊢
    exact (reads_ofExcept hlists.1).bind_pure fun _ _ => hlists.2

/-! ## Modules -/

/-- A module is made with a context and a layout that are there. -/
theorem keeps_makeModule (hs : s.Sound) (name : String) {context : Option ContextId}
    {layout : LayoutId} (hcontext : ∀ c, context = some c → s.Has (.context c))
    (hlayout : s.Has (.layout layout)) :
    (makeModule name context layout).Keeps (.edits d) s fun id t => t.Has (.module id) := by
  have hheld : s.Has (.context (context.getD globalContext)) := by
    cases context with
    | none => exact hs.closed.global
    | some c => exact hcontext c rfl
  have hslots : ∀ slot ∈ Kind.slots .module
      { name, context := context.getD globalContext, layout }, s.HasIn slot :=
    Module.holdsOnly_iff.mp {
      context := hasIn_some.mpr hheld
      layout := hasIn_some.mpr hlayout
      functions := fun _ h => nomatch h
      globals := fun _ h => nomatch h
      units := fun _ h => nomatch h
      index := fun _ h => nomatch h }
  exact keeps_createHas hs trivial hslots

/-- A change of a module, which then holds only what is there. -/
theorem keeps_reviseModule (hs : s.Sound) {module : ModuleId} {f : Module → Module}
    (h : ∀ m, s.get? module = some m → (f m).HoldsOnly s.HasIn) :
    (update module f).Keeps (.edits d) s fun _ _ => True :=
  have hrevise : (update module f).Keeps (.edits d) s _ :=
    keeps_reviseEdit hs fun m hm => ⟨trivial, Module.holdsOnly_iff.mp (h m hm)⟩
  hrevise.any

/-- A function enters a module with what is listed of it there. -/
theorem keeps_addFunction (hs : s.Sound) {module : ModuleId} {function : FunctionId}
    (hmodule : s.Has (.module module)) (hfunction : s.Has (.function function)) :
    (addFunction module function).Keeps (.edits d) s fun _ _ => True := by
  refine reads_fetch.bind fun f _ => reads_require.bind fun _ _ => ?_
  have hrevise : (update function fun f => { f with module := some module }).Keeps (.edits d) s _ :=
    keeps_reviseEdit hs fun f hf => ⟨⟨rfl, rfl, rfl, rfl, fun _ h => h⟩, Function.holdsOnly_iff.mp {
      hs.closed.function hf with
      module := by
        rintro _ ⟨⟩
        exact hasIn_some.mpr hmodule }⟩
  refine Keeps.bind hrevise fun _ t (ht : Edited d s t) _ => ?_
  have hclosed := (ht.sound hs).closed
  refine keeps_reviseModule (ht.sound hs) fun m hm => {
    hclosed.module hm with functions := fun f hf => ?_ }
  rcases List.mem_append.mp hf with hf | hf
  · exact (hclosed.module hm).functions f hf
  · obtain rfl := List.mem_singleton.mp hf
    exact hasIn_some.mpr (ht.has hfunction)

theorem reads_globalIn {slot : Slot} :
    (globalIn slot).Reads s fun found => slot = .ofValue found.1 ∧ s.Has (.value found.1) := by
  refine reads_valueIn.bind_reads fun id hid => reads_fetch.bind_reads fun v _ => ?_
  split
  · exact reads_pure ⟨hid.1, has_value_iff.mpr hid.2⟩
  · exact reads_throw rfl

theorem keeps_addGlobal (hs : s.Sound) {module : ModuleId} (hmodule : s.Has (.module module))
    (slot : Slot) : (addGlobal module slot).Keeps (.edits d) s fun _ _ => True := by
  refine reads_globalIn.bind fun found hfound => ?_
  refine reads_require.bind fun _ _ => ?_
  refine Keeps.bind (keeps_reviseEdit hs fun v hv => ?_) fun _ t (ht : Edited d s t) _ => ?_
  · refine ⟨v.revises_mapGlobal _, Value.holdsOnly_iff.mp ?_⟩
    have hholds := hs.closed.holdsOnly hv
    refine hholds.mapGlobal (fun g hg => hholds.initializer g hg) fun g _ m hm => ?_
    cases hm
    exact hasIn_some.mpr hmodule
  have hclosed := (ht.sound hs).closed
  refine keeps_reviseModule (ht.sound hs) fun m hm => {
    hclosed.module hm with globals := fun g hg => ?_ }
  rcases List.mem_append.mp hg with hg | hg
  · exact (hclosed.module hm).globals g hg
  · obtain rfl := List.mem_singleton.mp hg
    exact hasIn_some.mpr (ht.has hfound.2)

/-- A unit that is there enters a module. -/
theorem keeps_addUnit (hs : s.Sound) (module : ModuleId) {unit : Slot} (hunit : s.HasIn unit) :
    (addUnit module unit).Keeps (.edits d) s fun _ _ => True := by
  refine keeps_reviseModule hs fun m hm => {
    hs.closed.module hm with units := fun u hu => ?_ }
  rcases List.mem_append.mp hu with hu | hu
  · exact (hs.closed.module hm).units u hu
  · exact List.mem_singleton.mp hu ▸ hunit

/-- A module with a state whose index lists only what is there. -/
theorem keeps_setState (hs : s.Sound) (module : ModuleId) {state : ModuleState}
    (hstate : ∀ index, state.index = some index → ∀ ref ∈ index.refs, s.Has ref) :
    (update module fun m => { m with state := some state }).Keeps (.edits d) s fun _ _ => True :=
  keeps_reviseModule hs fun _ hm => {
    hs.closed.module hm with
    index := fun index hindex ref href => hasIn_some.mpr (hstate index hindex ref href) }

/-- The state of a module is made if there is none. -/
theorem keeps_ensureState (hs : s.Sound) (module : ModuleId) :
    (ensureState module).Keeps (.edits d) s fun _ _ => True := by
  refine reads_fetch.bind fun m _ => ?_
  split
  · refine (keeps_record hs _).bind fun _ t (ht : Edited d s t) _ => ?_
    exact keeps_setState (ht.sound hs) module fun _ h => nomatch h
  · exact keeps_pure trivial

theorem reads_requireState (module : ModuleId) : (requireState module).Reads s fun _ => True := by
  refine reads_fetch.bind_reads fun m _ => ?_
  split
  · exact reads_pure trivial
  · exact reads_throw rfl

theorem keeps_resetIndex (hs : s.Sound) (module : ModuleId) :
    (resetIndex module).Keeps (.edits d) s fun _ _ => True :=
  (reads_requireState module).bind fun _ _ => keeps_setState hs module fun _ h => nomatch h

theorem keeps_loadState (hs : s.Sound) (module : ModuleId) :
    (loadState module).Keeps (.edits d) s fun _ _ => True := by
  refine reads_fetch.bind fun m _ => ?_
  split
  · exact keeps_pure trivial
  · refine (keeps_ensureState hs module).bind fun _ t (ht : Edited d s t) _ => ?_
    exact (keeps_record (ht.sound hs) _).bind fun _ _ _ _ => keeps_pure trivial

/-- The index that a module remembers lists only what is there. -/
theorem keeps_cachedIndex (hs : s.Sound) (module : ModuleId) :
    (cachedIndex module).Keeps (.edits d) s fun index t => ∀ ref ∈ index.refs, t.Has ref := by
  refine reads_fetch.bind fun m hm => ?_
  split
  · exact keeps_throw rfl
  · next index hstate =>
    refine keeps_pure fun ref href => ?_
    exact (hs.closed.module hm).index index (by rw [hstate]; rfl) ref href _ rfl
  · refine reads_get.bind fun t ht => ?_
    subst ht
    have hlists := Index.lists_ofModule hs.closed module {} fun _ h => nomatch h
    generalize (Index.ofModule t module).run.run {} = result at hlists ⊢
    refine (keeps_setState hs module fun index hindex => ?_).bind
      fun _ u (hu : Edited d t u) _ => ?_
    · cases hindex
      exact hlists.2
    · refine (reads_ofExcept hlists.1).bind fun _ _ => keeps_pure fun ref href => ?_
      exact hu.has (hlists.2 ref href)

end SsaDebugInfo
