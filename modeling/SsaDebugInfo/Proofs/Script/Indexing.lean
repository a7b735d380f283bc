import SsaDebugInfo.Proofs.Locating
import SsaDebugInfo.Proofs.Script.Leads

/-!
# Remembered indexes in scripts

The index that a module remembers is not made again when the metadata changes that it was made from.
As long as a script spares what the index of a module is made from (`Session.spares`), the
remembered index is the one that would be made now, so that a diagnostic about a global variable
names the same descriptor whether or not the module remembers an index.

- `Session.Leads.upToDate`: what the remembered index is after operations that spare a module.
- `Session.Leads.index_agrees`: what this means for indexes and for diagnostics.
-/

namespace SsaDebugInfo.Script.Session

open Act Store

variable {start session : Session} {module : ModuleId}

/-- Whether an operation spares what the index of a module is made from: it asks for no change of
that, or none comes of what it asks for. -/
def spares (module : ModuleId) (session : Session) (operation : Operation) (bindTo into : Given) :
    Bool :=
  (operation.description? session.labels).all
      (fun d => !decide (d.Concerns session.store module)) ||
    decide ((session.runOperation operation bindTo into).2.store.sources module =
      session.store.sources module)

/-- A module that remembered no index and has been spared since remembers the index that its sources
make, if any. -/
theorem Leads.upToDate (hleads : Leads (spares module) start session) (h : Reachable {} start)
    (hstart : start.store.indexOf? module = none) : session.store.UpToDate module := by
  refine hleads.preserves (P := (UpToDate · module)) h ?_ ?_ (fun _ hup => hup.collect) ?_
  · intro session operation bindTo into hsound hup hspares
    refine (touches_runOperation session operation bindTo into).upToDate hsound.store.closed ?_ hup
    refine (Bool.or_eq_true_iff.mp hspares).imp (fun hnone d hd => ?_) of_decide_eq_true
    simpa [show operation.description? session.labels = some d from hd] using hnone
  · intro s t hs hup htouches
    exact htouches.upToDate hs.closed (.inl fun _ hd => hd.elim) hup
  · intro index hindex
    rw [hstart] at hindex
    cases hindex

/-- Take a module whose units list descriptors of their own kind, and whose index was last reset, or
about to be made, before operations that have spared it. The index that its state answers is the one
that would be made now; and a diagnostic about one of its global variables names the first
descriptor of the variable that the units list, whether or not the module has a state. -/
theorem Leads.index_agrees (hleads : Leads (spares module) start session) (h : Reachable {} start)
    (hstart : start.store.indexOf? module = none) {m : Module}
    (hm : session.store.get? module = some m) (hdescribed : session.store.Described module) :
    (m.state.isSome → ∃ index t, session.store.Fills t ∧
      (cachedIndex module).run session.store = (.ok index, t) ∧
      (freshIndex module 1).run session.store = (.ok index, session.store)) ∧
    ∀ v o g, session.store.get? v = some o → Value.global? o = some g → g.module = some module →
      ∃ t, session.store.Fills t ∧ ∀ emitter reason level,
        (emitOnGlobal emitter (.ofValue v) reason level).run session.store =
          (emit emitter level reason none
            (session.store.declaration module (.ofValue v))).run t := by
  have hclosed := (Leads.reachable hleads h).sound.store.closed
  have hup := Leads.upToDate hleads h hstart
  have hhas : session.store.Has (.module module) := Option.isSome_iff_exists.mpr ⟨m, hm⟩
  have hmade := (Index.ofModule_described hhas hdescribed (hclosed.hasSources module).functions).1
  constructor
  · intro hstate
    obtain ⟨t, hfills, hrun⟩ := run_cachedIndex hmade hm hstate
    refine ⟨_, t, hfills, hrun, ?_⟩
    rw [run_freshIndex hmade, hup.lookupIndex]
  · intro v o g hv hg hmodule
    obtain ⟨t, hfills, hrun⟩ := run_locateGlobal_described hclosed hm hdescribed hup hv hg hmodule
    refine ⟨t, hfills, fun emitter reason level => ?_⟩
    unfold emitOnGlobal
    rw [run_bind, hrun]

/-- A module with a function and with a global variable that the third of three places of a unit
describes. Its state has just been made. -/
def describedModule : List Command :=
  [.run (.make (.global "g" (.int 32) none)) (some "g") none,
   .run (.metadata (.globalDescriptor "h" none none 1 none)) (some "other") none,
   .run (.metadata (.globalDescriptor "g" none none 2 (some "g"))) (some "first") none,
   .run (.metadata (.unit none "" [some "other", none, some "first"] [])) (some "unit") none,
   .run (.metadata (.subprogram "f" none 1 none none)) (some "sp") none,
   .run (.make (.function "f" .void [] (some "sp") none)) (some "f") none,
   .run (.modules (.module "m" none .standard)) (some "m") none,
   .run (.modules (.addFunction (some "m") (some "f"))) none none,
   .run (.modules (.addGlobal (some "m") (some "g"))) none none,
   .run (.modules (.addUnit (some "m") (some "unit"))) none none,
   .run (.modules (.createState (some "m"))) none none]

/-- The index is made, a block enters the function, the descriptor is renamed, a unit of no module
is extended, and the function gets the subprogram that it has. -/
def sparingModule : List Command :=
  [.run (.modules (.index (some "m") .remembered)) none none,
   .run (.make (.block "entry" [])) (some "entry") (some "f"),
   .run (.change (.setName (some "first") "renamed")) none none,
   .run (.metadata (.unit none "" [] [])) (some "stray") none,
   .run (.metadata (.extendUnit (some "stray") [some "other"] [])) none none,
   .run (.modules (.setSubprogram (some "f") (some "sp"))) none none]

/-- The session in which the module has been described, and the one in which it has been spared. -/
def describedSession : Session :=
  (runAll [] {} describedModule).1

@[inherit_doc describedSession]
def sparedSession : Session :=
  (runAll [] describedSession sparingModule).1

/-- The module answers the same index either way, and the variable, value 0, is located at its
descriptor, node 1. -/
theorem index_agrees_sparedSession :
    Reachable {} describedSession ∧ describedSession.store.indexOf? ⟨0⟩ = none ∧
      Leads (spares ⟨0⟩) describedSession sparedSession ∧ sparedSession.store.Described ⟨0⟩ ∧
      (∃ index t, sparedSession.store.Fills t ∧
        (cachedIndex ⟨0⟩).run sparedSession.store = (.ok index, t) ∧
        (freshIndex ⟨0⟩ 1).run sparedSession.store = (.ok index, sparedSession.store)) ∧
      ∃ t, sparedSession.store.Fills t ∧
        ∀ emitter reason level, (emitOnGlobal emitter (.ofValue ⟨0⟩) reason level).run
            sparedSession.store =
          (emit emitter level reason none (.ofNode ⟨1⟩)).run t := by
  have hstart : Reachable {} describedSession := reachable_runAll .new (by decide +kernel)
  have hforgotten : describedSession.store.indexOf? ⟨0⟩ = none := by decide +kernel
  have hleads : Leads (spares ⟨0⟩) describedSession sparedSession :=
    leads_runAll (by decide +kernel)
  have hshape : sparedSession.store.Described ⟨0⟩ ∧
      ((sparedSession.store.get? (⟨0⟩ : ModuleId)).bind (·.state)).isSome = true ∧
      ((sparedSession.store.get? (⟨0⟩ : ValueId)).bind Value.global?).bind (·.module) =
        some ⟨0⟩ ∧
      sparedSession.store.declaration ⟨0⟩ (.ofValue ⟨0⟩) = .ofNode ⟨1⟩ := by
    decide +kernel
  obtain ⟨hdescribed, hstate, hmodule, hdeclaration⟩ := hshape
  obtain ⟨state, hstate⟩ := Option.isSome_iff_exists.mp hstate
  obtain ⟨m, hm, hstate⟩ := Option.bind_eq_some_iff.mp hstate
  obtain ⟨g, hg, hmodule⟩ := Option.bind_eq_some_iff.mp hmodule
  obtain ⟨o, hv, hg⟩ := Option.bind_eq_some_iff.mp hg
  obtain ⟨hindex, hlocated⟩ := Leads.index_agrees hleads hstart hforgotten hm hdescribed
  obtain ⟨t, hfills, hemit⟩ := hlocated _ o g hv hg hmodule
  rw [hdeclaration] at hemit
  exact ⟨hstart, hforgotten, hleads, hdescribed, hindex (by rw [hstate]; rfl), t, hfills, hemit⟩

end SsaDebugInfo.Script.Session
