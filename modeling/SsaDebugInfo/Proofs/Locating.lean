import SsaDebugInfo.Diagnostics.Emitter
import SsaDebugInfo.Proofs.Indexing

/-!
# Locating global variables

A global variable is located through the index of its module: the one that the state of the module
remembers, which it makes and remembers if it has none, or one made for the occasion. So locating
changes nothing but what a module remembers (`Store.Fills`).

- `run_cachedIndex`, `run_freshIndex`: the index of a module whose sources can be gone through.
- `run_locateGlobal`: the location of a global variable.
- `answers_locateGlobal`: what is needed for a global variable to be located.
- `run_locateGlobal_described`: the same where the remembered index is up to date.
-/

namespace SsaDebugInfo

open Act Store

variable {s t : Store} {module : ModuleId}

/-- A module remembers an index. -/
def Store.remember (s : Store) (module : ModuleId) (index : Index) : Store :=
  s.modify module fun m => { m with state := some { index := some index } }

/-- The store is the same, or a module whose state remembered no index remembers what has been found
for it. -/
inductive Store.Fills (s : Store) : Store → Prop
  | same : s.Fills s
  | index (module : ModuleId) {m : Module} (hm : s.get? module = some m)
      (hstate : m.state = some {}) :
      s.Fills (s.remember module ((Index.ofModule s module).run.run {}).2)

/-- The index that global variables of a module are looked up in: the one that the state of the
module remembers, or one made for the occasion. -/
def Store.lookupIndex (s : Store) (module : ModuleId) : Index :=
  (s.indexOf? module).getD (Index.made (s.sources module))

/-- An index that is up to date is what would be made now. -/
theorem Store.UpToDate.lookupIndex (h : s.UpToDate module) :
    s.lookupIndex module = Index.made (s.sources module) := by
  unfold Store.lookupIndex
  cases hindex : s.indexOf? module with
  | none => rfl
  | some index => exact h index hindex

/-- Whether an index is remembered or made, its global variables are listed by units. -/
theorem Store.Traced.lookupIndex (h : s.Traced) (module : ModuleId) :
    ∀ ref ∈ (s.lookupIndex module).globals, ref ∈ (s.sources module).descriptors := by
  unfold Store.lookupIndex
  cases hindex : s.indexOf? module with
  | none => exact fun ref href => Index.globals_made href
  | some index => exact h module index hindex

/-- Remembering an index changes no descriptor of a variable. -/
theorem Store.Fills.firstDescriptor (h : s.Fills t) (storage : Slot) (refs : List Ref) :
    Index.firstDescriptor t storage refs = Index.firstDescriptor s storage refs := by
  cases h with
  | same => rfl
  | index =>
    induction refs with
    | nil => rfl
    | cons ref rest ih =>
      unfold Index.firstDescriptor
      rw [ih]
      rfl

/-! ## Runs -/

theorem run_globalIn {v : ValueId} {o : Value} {g : Global} (hv : s.get? v = some o)
    (hg : o.global? = some g) : (globalIn (.ofValue v)).run s = (.ok (v, g), s) := by
  unfold globalIn
  rw [run_valueIn_bind (has_value_iff.mpr ⟨o, hv⟩), run_fetch_bind hv, hg]
  rfl

section Run

variable (hmade : (Index.ofModule s module).run.run {} = (.ok (), Index.made (s.sources module)))

include hmade

/-- An index made for the occasion is the one that the sources of the module make. -/
theorem run_freshIndex :
    (freshIndex module 1).run s = (.ok (Index.made (s.sources module)), s) := by
  rw [freshIndex, freshIndex, pure_bind, run_get_bind, hmade]
  rfl

variable {m : Module} (hm : s.get? module = some m)

include hm

/-- A module with a state answers the index that it remembers, or remembers the one that it
answers. -/
theorem run_cachedIndex (hstate : m.state.isSome) :
    ∃ t, s.Fills t ∧ (cachedIndex module).run s = (.ok (s.lookupIndex module), t) := by
  unfold cachedIndex Store.lookupIndex Store.indexOf?
  rw [run_fetch_bind hm, hm]
  obtain ⟨⟨index⟩, hstate⟩ := Option.isSome_iff_exists.mp hstate
  rw [hstate, Option.bind_some, hstate]
  cases index with
  | some index => exact ⟨s, .same, rfl⟩
  | none =>
    refine ⟨_, .index module hm hstate, ?_⟩
    dsimp only
    rw [run_get_bind, hmade]
    rfl

/-- A global variable is looked up in the index of its module, if the module has debug metadata. -/
theorem run_locateGlobal {v : ValueId} {o : Value} {g : Global} (hv : s.get? v = some o)
    (hg : o.global? = some g) (hmodule : g.module = some module) :
    ∃ t, s.Fills t ∧ (locateGlobal (.ofValue v)).run s =
      (if m.hasDebugInfo then (s.lookupIndex module).descriptorOf s (.ofValue v) else .ok none,
        t) := by
  have hask : ∀ {act : Act Index}, (∃ t, s.Fills t ∧ act.run s = (.ok (s.lookupIndex module), t)) →
      ∃ t, s.Fills t ∧ (act >>= fun index => ask fun s => index.descriptorOf s (.ofValue v)).run s =
        ((s.lookupIndex module).descriptorOf s (.ofValue v), t) := by
    rintro act ⟨t, hfills, hact⟩
    refine ⟨t, hfills, ?_⟩
    rw [run_bind, hact]
    dsimp only
    rw [run_ask, Index.descriptorOf, Index.descriptorOf, hfills.firstDescriptor]
  unfold locateGlobal
  rw [run_bind, run_globalIn hv hg]
  dsimp only
  rw [hmodule, pure_bind]
  dsimp only
  rw [run_fetch_bind hm]
  by_cases hinfo : m.hasDebugInfo = true
  · rw [if_pos hinfo, if_pos hinfo]
    by_cases hstate : m.state.isSome = true
    · rw [if_pos hstate]
      exact hask (run_cachedIndex hmade hm hstate)
    · rw [if_neg hstate]
      have hnone : s.indexOf? module = none := by
        rw [Store.indexOf?, hm, Option.bind_some, Option.not_isSome_iff_eq_none.mp hstate]
        rfl
      refine hask ⟨s, .same, ?_⟩
      rw [run_freshIndex hmade, Store.lookupIndex, hnone]
      rfl
  · rw [if_neg hinfo, if_neg hinfo]
    exact ⟨s, .same, rfl⟩

end Run

/-- A global variable that is in no module, or in a described one, can be located, even where the
module remembers an index that is out of date. -/
theorem answers_locateGlobal (hs : s.Closed) (htraced : s.Traced) {v : ValueId} {o : Value}
    {g : Global} (hv : s.get? v = some o) (hg : o.global? = some g)
    (hdescribed : ∀ module, g.module = some module → s.Described module) :
    (locateGlobal (.ofValue v)).Answers s := by
  cases hmodule : g.module with
  | none =>
    refine ⟨none, s, ?_⟩
    unfold locateGlobal
    rw [run_bind, run_globalIn hv hg]
    dsimp only
    rw [hmodule]
    rfl
  | some module =>
    have hdescribed := hdescribed module hmodule
    have hhas : s.Has (.module module) := (hs.holdsOnly hv).module g hg module hmodule _ rfl
    obtain ⟨m, hm⟩ := Option.isSome_iff_exists.mp hhas
    have hmade := (Index.ofModule_described hhas hdescribed (hs.hasSources module).functions).1
    obtain ⟨t, _, hrun⟩ := run_locateGlobal hmade hm hv hg hmodule
    -- whatever the index lists as a global descriptor is one
    have hglobals : ∀ ref ∈ (s.lookupIndex module).globals, s.IsGlobal ref := by
      intro ref href
      obtain ⟨unit, hunit, lists, hlisted, hmem⟩ :=
        mem_descriptors.mp (htraced.lookupIndex module ref href)
      obtain ⟨globals, subprograms, hlists⟩ := hdescribed unit hunit
      obtain rfl := Option.some_inj.mp (hlists.listed.symm.trans hlisted)
      exact hlists.globals ref hmem
    rw [Index.descriptorOf, Index.firstDescriptor_eq hglobals] at hrun
    split at hrun
    · exact ⟨_, t, hrun⟩
    · exact ⟨_, t, hrun⟩

/-- In a described module whose remembered index is up to date, a global variable is located at the
first of the descriptors that describe it. -/
theorem run_locateGlobal_described {m : Module} (hs : s.Closed) (hm : s.get? module = some m)
    (hdescribed : s.Described module) (hup : s.UpToDate module) {v : ValueId} {o : Value}
    {g : Global} (hv : s.get? v = some o) (hg : o.global? = some g)
    (hmodule : g.module = some module) :
    ∃ t, s.Fills t ∧
      (locateGlobal (.ofValue v)).run s = (.ok (s.declaration module (.ofValue v)), t) := by
  have hhas : s.Has (.module module) := Option.isSome_iff_exists.mpr ⟨m, hm⟩
  have hfunctions := (hs.hasSources module).functions
  have hmade := (Index.ofModule_described hhas hdescribed hfunctions).1
  obtain ⟨t, hfills, hrun⟩ := run_locateGlobal hmade hm hv hg hmodule
  refine ⟨t, hfills, hrun.trans ?_⟩
  by_cases hinfo : m.hasDebugInfo = true
  · rw [if_pos hinfo, hup.lookupIndex, Index.descriptorOf_described hhas hdescribed hfunctions]
  · -- without a compile unit nothing is described
    have hunits : s.unitsOf module = [] := by
      refine List.eq_nil_iff_forall_not_mem.mpr fun unit hunit => hinfo ?_
      obtain ⟨globals, subprograms, hlists⟩ := hdescribed unit hunit
      rw [unitsOf, hm] at hunit
      refine List.any_eq_true.mpr ⟨unit, hunit, ?_⟩
      cases unit with
      | none => cases hlists.listed
      | some ref => rfl
    rw [if_neg hinfo, declaration, Sources.descriptors, Store.sources, hunits]
    rfl

end SsaDebugInfo
