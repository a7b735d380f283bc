import SsaDebugInfo.Proofs.Locating

/-!
# What reporting changes

Making diagnostics, handing them to engines and finding locations for them changes the store by a
few sorts of single changes (`Report`): of diagnostics, of engines and of the journal, of what a
module remembers, and by a new node that says where a function is. So the program that a diagnostic
is about stays as it is (`Store.SameProgram`), and apart from a fault of its engine every diagnostic
that can be asked for is made (`HandsOver`).

- `reports_emitOnInstruction` and the like: what emitting changes, however it ends.
- `Reports.sameProgram`: what this leaves as it is.
- `handsOver_emitOnInstruction` and the like: emitting makes a diagnostic.
-/

namespace SsaDebugInfo

open Act Store

variable {s t u : Store}

/-- A single change that reporting makes. -/
inductive Report (s : Store) : Store → Prop
  | record (entry : Entry) : Report s { s with journal := s.journal ++ [entry] }
  | engine (id : EngineId) (f : Engine → Engine) : Report s (s.modify id f)
  | diagnostic (d : Diagnostic) : Report s (s.push .diagnostic d)
  | notes (id : DiagnosticId) (notes : List Slot) :
      Report s (s.modify id fun d => { d with notes := d.notes ++ notes })
  | locate (line : Int) (subprogram : Slot) :
      Report s (s.push .node (.location line 0 subprogram none))
  | fill {t : Store} (h : s.Fills t) : Report s t

/-- One such change after another. -/
abbrev Reports : Store → Store → Prop :=
  Relation.ReflTransGen Report

/-! ## What emitting changes -/

section Reads

variable {R : Store → Store → Prop} [IsPreorder Store R]

theorem only_globalIn (slot : Slot) : (globalIn slot).Only R := by
  refine (only_valueIn slot).bind fun id => (only_fetch id).bind fun v => ?_
  split
  · exact only_pure _
  · exact only_throw _

theorem only_freshIndex (module : ModuleId) (times : Nat) : (freshIndex module times).Only R := by
  induction times with
  | zero => exact only_pure _
  | succ times ih =>
    refine ih.bind fun index => only_get.bind fun s => ?_
    exact (only_ofExcept _).bind fun _ => only_pure _

end Reads

theorem reports_process (engine : EngineId) (slot : Slot) :
    (process engine slot).Only Reports := by
  refine (only_fetch engine).bind fun e => ?_
  split
  · exact only_update fun s => .single (.engine engine _)
  · refine (only_idIn _ slot).bind fun id => ?_
    refine Only.bind (only_update fun s => .single (.notes id _)) fun _ => ?_
    refine (only_fetch id).bind fun d => (only_ask _).bind fun lines => ?_
    refine Only.bind (only_modify fun s => .single (.record _)) fun _ => ?_
    split
    · exact only_throw _
    · exact only_pure ()

theorem reports_makeDiagnostic (level : Option String) (diagnostic : Level → Diagnostic) :
    (makeDiagnostic level diagnostic).Only Reports := by
  unfold makeDiagnostic
  split
  · exact only_create fun s => .single (.diagnostic _)
  · exact only_throw _

theorem reports_emit (emitter : Emitter) (level : Option String) (reason : String)
    (function location : Slot) : (emit emitter level reason function location).Only Reports :=
  (reports_makeDiagnostic _ _).bind fun id => (reports_process _ _).bind fun _ => only_pure id

theorem reports_emitOnInstruction (emitter : Emitter) (target : Slot) (reason : String)
    (level : Option String) : (emitOnInstruction emitter target reason level).Only Reports :=
  (only_instructionIn target).bind fun _ => only_get.bind fun _ => reports_emit _ _ _ _ _

/-- About a function a node may come that says where the function is. -/
theorem reports_emitOnFunction (emitter : Emitter) (target : Slot) (reason : String)
    (level : Option String) : (emitOnFunction emitter target reason level).Only Reports := by
  refine (only_idIn _ target).bind fun id => (only_fetch id).bind fun f => ?_
  have hlocated : ∀ line, (do
      let location ← pure (Slot.ofNode (← create .node (.location line 0 f.subprogram none)))
      emit emitter level reason target location : Act DiagnosticId).Only Reports := fun line =>
    Only.bind (only_create fun s => .single (.locate line f.subprogram)) fun node =>
      reports_emit _ _ _ _ _
  dsimp only
  split
  · exact reports_emit _ _ _ _ _
  · refine only_get.bind fun s => ?_
    split
    · exact hlocated _
    · exact hlocated _
    · exact hlocated _
    · exact hlocated _
    · exact only_throw _

theorem reports_cachedIndex (module : ModuleId) : (cachedIndex module).Only Reports := by
  intro s
  unfold cachedIndex
  cases hm : s.get? module with
  | none =>
    rw [run_bind, run_fetch, hm]
    exact .refl
  | some m =>
    rw [run_fetch_bind hm]
    cases hstate : m.state with
    | none => exact .refl
    | some state =>
      obtain ⟨index⟩ := state
      cases index with
      | some index => exact .refl
      | none =>
        have hrest : (do
            MonadExcept.ofExcept ((Index.ofModule s module).run.run {}).1
            return ((Index.ofModule s module).run.run {}).2 : Act Index).Only Reports :=
          (only_ofExcept _).bind fun _ => only_pure _
        exact .trans (.single (.fill (.index module hm hstate))) (hrest _)

theorem reports_locateGlobal (target : Slot) : (locateGlobal target).Only Reports := by
  have hlocate : ∀ id : ModuleId, (do
      let m ← fetch id
      if m.hasDebugInfo then
        let index ← if m.state.isSome then cachedIndex id else freshIndex id 1
        ask fun s => index.descriptorOf s target
      else return none : Act Slot).Only Reports := by
    intro id
    refine (only_fetch _).bind fun m => ?_
    split
    · dsimp only
      split
      · exact (reports_cachedIndex _).bind fun index => only_ask _
      · exact (only_freshIndex _ _).bind fun index => only_ask _
    · exact only_pure _
  unfold locateGlobal
  split
  · exact only_pure _
  · refine (only_fetch _).bind fun f => (only_pure f.module).bind fun module => ?_
    cases module with
    | none => exact only_pure _
    | some id => exact hlocate id
  · refine (only_globalIn _).bind fun found => (only_pure found.2.module).bind fun module => ?_
    cases module with
    | none => exact only_pure _
    | some id => exact hlocate id

theorem reports_emitOnGlobal (emitter : Emitter) (target : Slot) (reason : String)
    (level : Option String) : (emitOnGlobal emitter target reason level).Only Reports :=
  (reports_locateGlobal target).bind fun _ => reports_emit _ _ _ _ _

theorem reports_emitOnContext (emitter : Emitter) (reason : String) (level : Option String) :
    (emitOnContext emitter reason level).Only Reports :=
  reports_emit _ _ _ _ _

/-! ## What reporting leaves as it is -/

/-- What every single change preserves is preserved by reporting. -/
theorem Reports.relate {R : Store → Store → Prop} [IsPreorder Store R] (h : Reports s t)
    (hreport : ∀ {s t}, Report s t → R s t) : R s t := by
  induction h with
  | refl => exact refl_of R s
  | tail _ hlast ih => exact trans_of R ih (hreport hlast)

theorem Act.Only.relate {α : Type} {act : Act α} {R : Store → Store → Prop} [IsPreorder Store R]
    (h : act.Only Reports) (hreport : ∀ {s t}, Report s t → R s t) : act.Only R :=
  fun s => (h s).relate hreport

/-- Values, functions, contexts, layouts and nodes stay as they are, and so do modules, except that
one whose state remembered no index may remember one. -/
structure Store.SameProgram (s t : Store) : Prop where
  values : t.values = s.values
  functions : t.functions = s.functions
  contexts : t.contexts = s.contexts
  layouts : t.layouts = s.layouts
  nodes : ∀ (n : NodeId) (o : Node), s.get? n = some o → t.get? n = some o
  modules : ∀ m : ModuleId, t.get? m = s.get? m ∨ ∃ (o : Module) (index : Index),
    s.get? m = some o ∧ o.state = some {} ∧
      t.get? m = some { o with state := some { index := some index } }

instance : IsPreorder Store SameProgram where
  refl _ := ⟨rfl, rfl, rfl, rfl, fun _ _ h => h, fun _ => .inl rfl⟩
  trans s t u hst htu := by
    refine ⟨htu.values.trans hst.values, htu.functions.trans hst.functions,
      htu.contexts.trans hst.contexts, htu.layouts.trans hst.layouts,
      fun n o h => htu.nodes n o (hst.nodes n o h), fun m => ?_⟩
    rcases hst.modules m with heq | ⟨o, index, hs, hempty, ht⟩
    · rw [← heq]
      exact htu.modules m
    · rcases htu.modules m with heq | ⟨o', _, ht', hempty', _⟩
      · exact .inr ⟨o, index, hs, hempty, heq.trans ht⟩
      · -- a state that remembers an index is not asked to remember another
        obtain rfl := Option.some_inj.mp (ht.symm.trans ht')
        cases hempty'

theorem Report.sameProgram (h : Report s t) : s.SameProgram t := by
  cases h with
  | record => exact ⟨rfl, rfl, rfl, rfl, fun _ _ h => h, fun _ => .inl rfl⟩
  | engine => exact ⟨rfl, rfl, rfl, rfl, fun _ _ h => h, fun _ => .inl rfl⟩
  | diagnostic => exact ⟨rfl, rfl, rfl, rfl, fun _ _ h => h, fun _ => .inl rfl⟩
  | notes => exact ⟨rfl, rfl, rfl, rfl, fun _ _ h => h, fun _ => .inl rfl⟩
  | locate line subprogram =>
    refine ⟨rfl, rfl, rfl, rfl, fun n o hn => ?_, fun _ => .inl rfl⟩
    have hhas : s.Has (.node n) := Option.isSome_iff_exists.mpr ⟨o, hn⟩
    rw [get?_push_of_has n _ hhas, hn]
  | fill hfills =>
    cases hfills with
    | same => exact refl_of SameProgram s
    | index module hm hstate =>
      refine ⟨rfl, rfl, rfl, rfl, fun _ _ h => h, fun m => ?_⟩
      unfold remember
      rw [get?_modify]
      split
      · next heq =>
        subst heq
        exact .inr ⟨_, _, hm, hstate, by rw [hm]; rfl⟩
      · exact .inl rfl

/-! ## Emitting makes diagnostics -/

/-- Apart from what reporting changes an action makes a diagnostic and hands it to an engine; if the
engine takes it, the action answers it. -/
def HandsOver (act : Act DiagnosticId) (engine : EngineId) (level : Level) (reason : String)
    (s : Store) : Prop :=
  ∃ (t : Store) (d : Diagnostic), Reports s t ∧ d.level = level ∧ d.reason = reason ∧
    ∀ u, (process engine (some (.diagnostic (t.nextId .diagnostic)))).run (t.push .diagnostic d) =
      (.ok (), u) → act.run s = (.ok (t.nextId .diagnostic), u)

section HandsOver

variable {emitter : Emitter} {level : Option String} {l : Level} {reason : String}

/-- What is asked before changes no more than reporting does. -/
theorem HandsOver.bind {α : Type} {first : Act α} {second : α → Act DiagnosticId} {a : α}
    {engine : EngineId} (hfirst : first.Only Reports) (hrun : first.run s = (.ok a, t))
    (h : HandsOver (second a) engine l reason t) :
    HandsOver (first >>= second) engine l reason s := by
  obtain ⟨u, d, hreports, hlevel, hreason, hact⟩ := h
  have hbefore : Reports s t := by
    have hafter := hfirst s
    rwa [hrun] at hafter
  refine ⟨u, d, hbefore.trans hreports, hlevel, hreason, fun w hw => ?_⟩
  rw [run_bind, hrun]
  exact hact w hw

variable (hlevel : level.bind Level.ofString? = some l)

include hlevel

theorem handsOver_emit (function location : Slot) :
    HandsOver (emit emitter level reason function location) emitter.engine l reason s := by
  refine ⟨s, { level := l, reason, function, location }, .refl, rfl, rfl, fun u hu => ?_⟩
  unfold emit makeDiagnostic
  rw [hlevel, run_bind, run_create]
  dsimp only
  rw [run_bind, hu]
  rfl

theorem handsOver_emitOnContext :
    HandsOver (emitOnContext emitter reason level) emitter.engine l reason s :=
  handsOver_emit hlevel none none

theorem handsOver_emitOnInstruction {x : ValueId} {i : Instruction}
    (hx : s.instruction? x = some i) :
    HandsOver (emitOnInstruction emitter (.ofValue x) reason level) emitter.engine l reason s := by
  obtain ⟨o, ho, hi⟩ := Option.bind_eq_some_iff.mp hx
  have hin : s.instructionIn? (.ofValue x) = some (x, i) :=
    instructionIn?_eq_some.mpr ⟨rfl, o, ho, hi⟩
  refine HandsOver.bind (only_instructionIn _) (a := x) (t := s) ?_ ?_
  · rw [instructionIn, run_ask, hin]
    rfl
  · exact HandsOver.bind only_get (a := s) (t := s) rfl (handsOver_emit hlevel _ _)

/-- A function without a subprogram has no location, and otherwise one at the line of it. -/
theorem handsOver_emitOnFunction {f : FunctionId} {o : Function} (ho : s.get? f = some o)
    (hsubprogram : o.subprogram = none ∨
      ((s.nodeIn? o.subprogram).map Node.isSubprogram).getD false = true) :
    HandsOver (emitOnFunction emitter (some (.function f)) reason level) emitter.engine l reason
      s := by
  refine HandsOver.bind (only_idIn _ _) (a := f) (t := s) rfl ?_
  refine HandsOver.bind (only_fetch f) (a := o) (t := s) (by rw [run_fetch, ho]; rfl) ?_
  cases hslot : o.subprogram with
  | none => exact handsOver_emit hlevel _ _
  | some ref =>
    have hsome := hsubprogram.resolve_left (by rw [hslot]; exact Option.some_ne_none ref)
    rw [hslot] at hsome
    cases hn : s.nodeIn? (some ref) with
    | none =>
      rw [hn] at hsome
      cases hsome
    | some n =>
      rw [hn] at hsome
      cases n with
      | subprogram name source line parent linkage =>
        refine HandsOver.bind only_get (a := s) (t := s) rfl ?_
        dsimp only
        rw [hn]
        exact HandsOver.bind (only_create fun s => .single (.locate line (some ref))) rfl
          (handsOver_emit hlevel _ _)
      | _ => cases hsome

/-- What can be located is reported. -/
theorem handsOver_emitOnGlobal {target : Slot} (h : (locateGlobal target).Answers s) :
    HandsOver (emitOnGlobal emitter target reason level) emitter.engine l reason s := by
  obtain ⟨location, t, hrun⟩ := h
  exact HandsOver.bind (reports_locateGlobal target) hrun (handsOver_emit hlevel none location)

end HandsOver

end SsaDebugInfo
