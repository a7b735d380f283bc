import SsaDebugInfo.Proofs.Modules

/-!
# Diagnostics concern no operand

Making diagnostics, handing them to engines and finding locations for them is done by edits that
concern neither operands nor tables. An engine may turn a diagnostic into a fault, but that fault
tells of no use or name out of step.
-/

namespace SsaDebugInfo

open Act Store

variable {d : Discipline} {s : Store}

/-- A diagnostic is made at a known level, and all that it tells of is there. -/
theorem keeps_makeDiagnostic (hs : s.Sound) (level : Option String)
    {diagnostic : Level → Diagnostic}
    (h : ∀ level, ∀ slot ∈ (diagnostic level).slots, s.HasIn slot) :
    (makeDiagnostic level diagnostic).Keeps (.edits d) s fun id t => t.Has (.diagnostic id) := by
  unfold makeDiagnostic
  split
  · next level _ => exact keeps_createHas hs trivial (h level)
  · exact keeps_throw rfl

theorem keeps_reviseEngine (hs : s.Sound) {engine : EngineId} {f : Engine → Engine}
    (h : ∀ e, s.get? engine = some e → ∀ slot ∈ (f e).slots, s.HasIn slot) :
    (update engine f).Keeps (.edits d) s fun _ _ => True :=
  have hrevise : (update engine f).Keeps (.edits d) s _ :=
    keeps_reviseEdit hs fun e he => ⟨trivial, h e he⟩
  hrevise.any

/-- A diagnostic that an engine takes gets the notes that are open there, or is taken as it is. -/
theorem keeps_process (hs : s.Sound) (engine : EngineId) {slot : Slot} (hslot : s.HasIn slot) :
    (process engine slot).Keeps (.edits d) s fun _ _ => True := by
  refine reads_fetch.bind fun e he => ?_
  have hheld := hs.closed.held engine he
  split
  · next received =>
    refine keeps_reviseEngine hs fun _ _ slot' hslot' => ?_
    rcases List.mem_append.mp hslot' with hslot' | hslot'
    · exact hheld slot' hslot'
    · exact List.mem_singleton.mp hslot' ▸ hslot
  · next errorsAreFatal notes =>
    refine reads_idIn.bind fun id _ => ?_
    refine Keeps.bind (keeps_reviseEdit hs fun o ho => ⟨trivial, fun slot' hslot' => ?_⟩)
      fun _ t (ht : Edited d s t) _ => ?_
    · have hslots := hs.closed.held id ho
      rcases List.mem_cons.mp hslot' with rfl | hslot'
      · exact hslots _ List.mem_cons_self
      · rcases List.mem_cons.mp hslot' with rfl | hslot'
        · exact hslots _ (List.mem_cons_of_mem _ List.mem_cons_self)
        · rcases List.mem_append.mp hslot' with hslot' | hslot'
          · exact hslots slot' (List.mem_cons_of_mem _ (List.mem_cons_of_mem _ hslot'))
          · exact hheld slot' hslot'
    · refine reads_fetch.bind fun diagnostic _ => ?_
      refine (reads_ask (diagnostic.plain_render t)).bind fun lines _ => ?_
      refine (keeps_record (ht.sound hs) _).bind fun _ _ _ _ => ?_
      split
      · exact keeps_throw rfl
      · exact keeps_pure trivial

/-- An engine opens notes that are there. -/
theorem keeps_pushNotes (hs : s.Sound) (engine : EngineId) {notes : List Slot}
    (hnotes : ∀ slot ∈ notes, s.HasIn slot) :
    (pushNotes engine notes).Keeps (.edits d) s fun _ _ => True := by
  refine reads_fetch.bind fun e _ => ?_
  split
  · exact keeps_throw rfl
  · refine keeps_reviseEngine hs fun e he slot hslot => ?_
    have hheld := hs.closed.held engine he
    cases e with
    | collecting received => exact hheld slot hslot
    | reporting errorsAreFatal old =>
      rcases List.mem_append.mp hslot with hslot | hslot
      · exact hheld slot hslot
      · exact hnotes slot hslot

/-- An engine that closes notes holds some of those that it held. -/
theorem keeps_popNotes (hs : s.Sound) (engine : EngineId) (count : Nat) :
    (popNotes engine count).Keeps (.edits d) s fun _ _ => True := by
  refine keeps_reviseEngine hs fun e he slot hslot => ?_
  have hheld := hs.closed.held engine he
  cases e with
  | collecting received => exact hheld slot hslot
  | reporting errorsAreFatal notes =>
    refine hheld slot ?_
    have hmem : slot ∈ dropNotes count notes := hslot
    unfold dropNotes at hmem
    split at hmem
    · cases hmem
    · exact List.mem_of_mem_take hmem

theorem reads_receivedLines (engine : EngineId) :
    (receivedLines engine).Reads s fun _ => True := by
  refine reads_fetch.bind_reads fun e _ => ?_
  split
  · exact reads_throw rfl
  · refine (reads_mapM fun slot _ => ?_).mono fun _ (_ : ∀ lines ∈ _, True) => trivial
    refine reads_idIn.bind_reads fun id _ => reads_fetch.bind_reads fun diagnostic _ => ?_
    exact (reads_ask (diagnostic.plain_render s)).mono fun _ _ => trivial

/-! ## Emitters -/

theorem keeps_makeEmitter (hs : s.Sound) {engine : Option EngineId} (depth : Int)
    (hengine : ∀ e, engine = some e → s.Has (.engine e)) :
    (makeEmitter engine depth).Keeps (.edits d) s fun id t => t.Has (.emitter id) := by
  have hemitter : ∀ {t : Store} (e : EngineId), t.Sound → t.Has (.engine e) →
      (create .emitter { engine := e, depth := depth.toNat }).Keeps (.edits d) t fun id t =>
        t.Has (.emitter id) := by
    intro t e ht he
    exact keeps_createHas ht trivial (List.forall_mem_singleton.mpr (hasIn_some.mpr he))
  refine reads_require.bind fun _ _ => ?_
  cases engine with
  | some e => exact hemitter e hs (hengine e rfl)
  | none =>
    have hcreate : (create .engine (.reporting false [])).Keeps (.edits d) s _ :=
      keeps_createHas hs trivial fun _ h => nomatch h
    exact hcreate.bind fun e t (ht : Edited d s t) he => hemitter e (ht.sound hs) he

/-- A diagnostic on a function and at a location that are there. -/
theorem keeps_emit (hs : s.Sound) (emitter : Emitter) (level : Option String) (reason : String)
    {function location : Slot} (hfunction : s.HasIn function) (hlocation : s.HasIn location) :
    (emit emitter level reason function location).Keeps (.edits d) s fun id t =>
      t.Has (.diagnostic id) := by
  refine (keeps_makeDiagnostic hs level fun level => ?_).bind fun id t (ht : Edited d s t) hid => ?_
  · exact List.forall_mem_cons.mpr ⟨hfunction, List.forall_mem_singleton.mpr hlocation⟩
  · refine (keeps_process (ht.sound hs) emitter.engine (hasIn_some.mpr hid)).bind
      fun _ u (hu : Edited d t u) _ => keeps_pure (hu.has hid)

theorem keeps_emitOnInstruction (hs : s.Sound) (emitter : Emitter) (target : Slot) (reason : String)
    (level : Option String) :
    (emitOnInstruction emitter target reason level).Keeps (.edits d) s fun id t =>
      t.Has (.diagnostic id) := by
  refine reads_instructionIn.bind fun id _ => reads_get.bind fun t ht => ?_
  subst ht
  refine keeps_emit hs emitter level reason (fun ref href => ?_) fun ref href => ?_
  · obtain ⟨f, hf, rfl⟩ := Option.map_eq_some_iff.mp href
    obtain ⟨o, ho, hf⟩ := Option.bind_eq_some_iff.mp hf
    exact (hs.closed.holdsOnly ho).function f hf _ rfl
  · obtain ⟨i, hi, hloc⟩ := Option.bind_eq_some_iff.mp href
    exact hs.closed.hasIn_loc (Option.map_eq_some_iff.mpr ⟨i, hi, rfl⟩) ref hloc

/-- A diagnostic on a function, at its subprogram if it has one. -/
theorem keeps_emitOnFunction (hs : s.Sound) (emitter : Emitter) {target : Slot}
    (htarget : s.HasIn target) (reason : String) (level : Option String) :
    (emitOnFunction emitter target reason level).Keeps (.edits d) s fun id t =>
      t.Has (.diagnostic id) := by
  refine reads_idIn.bind fun id _ => reads_fetch.bind fun f hf => ?_
  have hsubprogram := (hs.closed.function hf).subprogram
  have hlocated : ∀ line, (do
      let location ← pure (Slot.ofNode (← create .node (.location line 0 f.subprogram none)))
      emit emitter level reason target location : Act DiagnosticId).Keeps (.edits d) s fun id t =>
        t.Has (.diagnostic id) := by
    intro line
    have hcreate : (create .node (.location line 0 f.subprogram none)).Keeps (.edits d) s _ :=
      keeps_createHas hs rfl
        (List.forall_mem_cons.mpr ⟨hsubprogram, List.forall_mem_singleton.mpr hasIn_none⟩)
    exact hcreate.bind fun node t (ht : Edited d s t) hnode =>
      keeps_emit (ht.sound hs) emitter level reason (ht.hasIn htarget) (hasIn_some.mpr hnode)
  dsimp only
  split
  · exact keeps_emit hs emitter level reason htarget hasIn_none
  · refine reads_get.bind fun t ht => ?_
    subst ht
    split
    · exact hlocated _
    · exact hlocated _
    · exact hlocated _
    · exact hlocated _
    · exact keeps_throw rfl

/-- What the debug info of a module, if there is one, answers for a global variable is there. -/
theorem keeps_locateWithin (hs : s.Sound) (target : Slot) (module : Option ModuleId) :
    (do
      match module with
      | none => return none
      | some id =>
        let m ← fetch id
        if m.hasDebugInfo then
          let index ← if m.state.isSome then cachedIndex id else freshIndex id 1
          ask fun s => index.descriptorOf s target
        else return none : Act Slot).Keeps (.edits d) s fun location t => t.HasIn location := by
  cases module with
  | none => exact keeps_pure hasIn_none
  | some id =>
    refine reads_fetch.bind fun m _ => ?_
    have hask : ∀ {t : Store} {index : Index}, (∀ ref ∈ index.refs, t.Has ref) →
        (ask fun s => index.descriptorOf s target).Keeps (.edits d) t fun location t =>
          t.HasIn location := fun hindex =>
      (reads_ask (Index.plain_firstDescriptor _ target _)).keeps.mono fun _ _ _ h =>
        h.1 ▸ Index.hasIn_descriptorOf hindex h.2
    split
    · dsimp only
      split
      · exact (keeps_cachedIndex hs id).bind fun index t _ hindex => hask hindex
      · exact (reads_freshIndex hs.closed id 1).bind fun index hindex => hask hindex
    · exact keeps_pure hasIn_none

/-- The location of a global variable is there. -/
theorem keeps_locateGlobal (hs : s.Sound) (target : Slot) :
    (locateGlobal target).Keeps (.edits d) s fun location t => t.HasIn location := by
  have hrest := keeps_locateWithin (d := d) hs target
  unfold locateGlobal
  split
  · exact hrest none
  · exact reads_fetch.bind fun f _ => hrest _
  · exact reads_globalIn.bind fun _ _ => hrest _

theorem keeps_emitOnGlobal (hs : s.Sound) (emitter : Emitter) (target : Slot) (reason : String)
    (level : Option String) :
    (emitOnGlobal emitter target reason level).Keeps (.edits d) s fun id t =>
      t.Has (.diagnostic id) :=
  (keeps_locateGlobal hs target).bind fun _ t (ht : Edited d s t) hlocation =>
    keeps_emit (ht.sound hs) emitter level reason hasIn_none hlocation

theorem keeps_emitOnContext (hs : s.Sound) (emitter : Emitter) (reason : String)
    (level : Option String) :
    (emitOnContext emitter reason level).Keeps (.edits d) s fun id t => t.Has (.diagnostic id) :=
  keeps_emit hs emitter level reason hasIn_none hasIn_none

end SsaDebugInfo
