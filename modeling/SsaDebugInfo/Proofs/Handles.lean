import SsaDebugInfo.Proofs.Records.Undisturbed
import SsaDebugInfo.Records.Migrate

/-!
# Handles and wrappers are looked up in one place

Asking for the handle of a value fixes the context of the value, and from then on handle and wrapper
are looked up, and made, in the tables of that context (`Store.handleFor?`, `Store.wrapperFor?`).
What happens on the way touches neither operands nor uses, and nothing of the program
(`Store.Interns`).

- `keeps_contextOf`, `keeps_handleIfExists`, `keeps_handleOf`, `keeps_wrapperOf`: what is answered.
- `keeps_findRecord`: the record found is the first one among the users of the value's wrapper.
- `answers_findRecord`: looking for the record of a value that is there does not fault.
-/

namespace SsaDebugInfo

namespace Store

variable {s t u : Store}

/-! ## The handle and the wrapper of a value -/

/-- The handle that a value is looked up with. -/
def handleFor? (s : Store) (v : ValueId) : Option NodeId :=
  (s.contextAt v).bind fun c => (s.handlesIn c).lookup v

/-- The wrapper that a value is looked up with: that of its handle, in the context of the value. -/
def wrapperFor? (s : Store) (v : ValueId) : Option ValueId :=
  (s.contextAt v).bind fun c => (s.handleFor? v).bind fun h => (s.wrappersIn c).lookup h

/-- The handle of a value is the entry for it in the table of its context. -/
theorem Interned.handleFor?_eq_some (hs : s.Interned) {v : ValueId} {h : NodeId} :
    s.handleFor? v = some h ↔ ∃ c, s.contextAt v = some c ∧ (v, h) ∈ s.handlesIn c := by
  rw [handleFor?, Option.bind_eq_some_iff]
  exact exists_congr fun c => and_congr_right fun _ => lookup_eq_some_iff (hs.handleOnce c)

/-- The wrapper of a value is the entry for its handle in the table of its context. -/
theorem Interned.wrapperFor?_eq_some (hs : s.Interned) {v w : ValueId} :
    s.wrapperFor? v = some w ↔
      ∃ c h, s.contextAt v = some c ∧ s.handleFor? v = some h ∧ (h, w) ∈ s.wrappersIn c := by
  rw [wrapperFor?, Option.bind_eq_some_iff]
  refine exists_congr fun c => ?_
  rw [Option.bind_eq_some_iff]
  constructor
  · rintro ⟨hc, h, hh, hw⟩
    exact ⟨h, hc, hh, (lookup_eq_some_iff (hs.wrapperOnce c)).mp hw⟩
  · rintro ⟨h, hc, hh, hw⟩
    exact ⟨hc, h, hh, (lookup_eq_some_iff (hs.wrapperOnce c)).mpr hw⟩

/-- The wrapper that a value is looked up with wraps a handle of the value. -/
theorem Interned.of_wrapperFor? (hs : s.Interned) {v w : ValueId} (h : s.wrapperFor? v = some w) :
    ∃ n, s.wrappedAt w = some n ∧ s.handleAt n = some v := by
  obtain ⟨c, n, hc, hn, hw⟩ := hs.wrapperFor?_eq_some.mp h
  obtain ⟨c', _, hmem⟩ := hs.handleFor?_eq_some.mp hn
  exact ⟨n, hs.wrapper hw, hs.handle hmem⟩

/-- The wrapper that a value is looked up with is tied. -/
theorem Interned.tied (hs : s.Interned) {v w : ValueId} (h : s.wrapperFor? v = some w) :
    s.Tied w := by
  obtain ⟨c, n, hc, hn, hw⟩ := hs.wrapperFor?_eq_some.mp h
  obtain ⟨c', _, hmem⟩ := hs.handleFor?_eq_some.mp hn
  exact ⟨n, v, hs.wrapper hw, hs.handle hmem, fun _ => ⟨c, hc, hw⟩⟩

/-- A tied wrapper is the one that the value of its handle is looked up with. -/
theorem Interned.wrapperFor?_of_tied (hs : s.Interned) {v w : ValueId} {n : NodeId} (h : s.Tied w)
    (hw : s.wrappedAt w = some n) (hn : s.handleAt n = some v) (hv : s.Has (.value v)) :
    s.wrapperFor? v = some w := by
  obtain ⟨n', v', hw', hn', hentry⟩ := h
  obtain rfl := Option.some_inj.mp (hw.symm.trans hw')
  obtain rfl := Option.some_inj.mp (hn.symm.trans hn')
  obtain ⟨c, hc, hmem⟩ := hentry hv
  obtain ⟨c', hc', hmem'⟩ := hs.registered hn hv
  exact hs.wrapperFor?_eq_some.mpr
    ⟨c, n, hc, hs.handleFor?_eq_some.mpr ⟨c', hc', hmem'⟩, hmem⟩

/-- While no entry goes, a value is looked up with the handle that it was looked up with. -/
theorem MoreTables.handleFor? (hs : s.Interned) (ht : t.Interned) (h : s.MoreTables t)
    {v : ValueId} {n : NodeId} (hn : s.handleFor? v = some n) : t.handleFor? v = some n := by
  obtain ⟨c, hc, hmem⟩ := hs.handleFor?_eq_some.mp hn
  exact ht.handleFor?_eq_some.mpr ⟨c, h.contextAt hc, h.handlesIn c hmem⟩

/-- While no entry goes, a value is looked up with the wrapper that it was looked up with. -/
theorem MoreTables.wrapperFor? (hs : s.Interned) (ht : t.Interned) (h : s.MoreTables t)
    {v w : ValueId} (hw : s.wrapperFor? v = some w) : t.wrapperFor? v = some w := by
  obtain ⟨c, n, hc, hn, hmem⟩ := hs.wrapperFor?_eq_some.mp hw
  exact ht.wrapperFor?_eq_some.mpr
    ⟨c, n, h.contextAt hc, h.handleFor? hs ht hn, h.wrappersIn c hmem⟩

/-! ## What happens to a store on the way -/

/-- What looking up and making handles and wrappers does to a store. -/
structure Interns (s t : Store) : Prop extends s.KeepsUses t where
  edited : ∀ d, Edited d s t
  more : s.MoreTables t
  undisturbed : ∀ old, s.Undisturbed old t

namespace Interns

theorem refl (s : Store) : s.Interns s where
  toKeepsUses := .refl s
  edited d := .refl d s
  more := .refl s
  undisturbed old := .refl old s

theorem trans (hst : s.Interns t) (htu : t.Interns u) : s.Interns u where
  toKeepsUses := hst.toKeepsUses.trans htu.toKeepsUses
  edited d := (hst.edited d).trans (htu.edited d)
  more := hst.more.trans htu.more
  undisturbed old := (hst.undisturbed old).trans (htu.undisturbed old)

/-- A store in which more is interned is sound. -/
theorem sound (h : s.Interns t) (hs : s.Sound) : t.Sound :=
  (h.edited {}).sound hs

/-- A revised object that leaves the program undisturbed. -/
theorem revise (hs : s.Sound) {kind : Kind} {id : Id kind} {f : Object kind → Object kind}
    (h : ∀ o, s.get? id = some o →
      kind.Revises o (f o) ∧ ∀ slot ∈ kind.slots (f o), s.HasIn slot)
    (hundisturbed : ∀ old, s.Undisturbed old (s.modify id f)) : s.Interns (s.modify id f) where
  toKeepsUses := (aside_revise h).toKeepsUses
  edited d :=
    have hedit : (Edit.revise kind id f).act.Keeps (.edits d) s _ := keeps_edit hs h
    hedit.change
  more := (aside_revise h).toSameTables.more
  undisturbed := hundisturbed

/-- A handle for a value that has none is one more interned handle. -/
theorem addHandle (hs : s.Sound) {c : ContextId} {v : ValueId} {handle : Node}
    (hv : s.Has (.value v)) (hc : s.Has (.context c)) (hcontext : s.contextAt v = some c)
    (hnone : v ∉ (s.handlesIn c).map Prod.fst) (hhandle : handle.handleOf? = some v) :
    s.Interns (s.addHandle c v handle) where
  toKeepsUses := keepsUses_addHandle
  edited d :=
    have hedit : (Edit.addHandle c v handle).act.Keeps (.edits d) s _ :=
      keeps_edit hs ⟨hv, hc, hcontext, hnone, hhandle⟩
    hedit.change
  more := moreTables_addHandle hc
  undisturbed _ := .of_values (moreTables_addHandle hc).toExtends fun v' =>
    get?_addHandle v' (by decide) (by decide)

/-- A wrapper for a handle that has none is one more interned wrapper. -/
theorem addWrapper (hs : s.Sound) {c : ContextId} {n : NodeId} (hc : s.Has (.context c))
    (hn : s.Has (.node n)) (hnone : n ∉ (s.wrappersIn c).map Prod.fst) :
    s.Interns (s.addWrapper c n) where
  toKeepsUses := keepsUses_addWrapper
  edited d :=
    have hedit : (Edit.addWrapper c n).act.Keeps (.edits d) s _ := keeps_edit hs ⟨hc, hn, hnone⟩
    hedit.change
  more := moreTables_addWrapper hc
  undisturbed _ :=
    have hpush := Undisturbed.push_value hs.closed rfl
    hpush.trans (.of_values (.modify c _) fun _ => get?_modify_kind _ _ _ _ (by decide))

theorem annotate (hs : s.Sound) (labelTypes : Nat) (journal : List Entry) :
    s.Interns { s with labelTypes, journal } where
  toKeepsUses := (aside_annotate labelTypes journal).toKeepsUses
  edited d :=
    have hedit : (Edit.annotate labelTypes journal).act.Keeps (.edits d) s _ :=
      keeps_edit hs trivial
    hedit.change
  more := (aside_annotate labelTypes journal).toSameTables.more
  undisturbed _ := .of_values (aside_annotate labelTypes journal).toExtends fun _ => rfl

end Interns

/-- Fixing the context of a value leaves the program undisturbed. -/
theorem undisturbed_fixContext (hs : s.Closed) {old : ValueId → Prop} {v : ValueId} {c : ContextId}
    (haside : s.Aside (s.modify v fun o : Value => { o with context := some c })) :
    s.Undisturbed old (s.modify v fun o : Value => { o with context := some c }) := by
  refine .of_stays hs (.modify v _) (fun {v' a} ha => ?_)
    (fun {w} _ => haside.toSameTables.wrappedAt w) (fun b => ?_)
    (fun {u} _ _ _ => haside.operandsOf u) fun {v'} _ _ _ => haside.usesOf v'
  · rw [get?_modify]
    split
    · rw [ha]
      exact ⟨_, rfl, ⟨rfl, rfl, rfl⟩, rfl, rfl, rfl⟩
    · exact ⟨a, ha, .refl a⟩
  · exact asked_modify (fun o : Option (Object .value) => (o.map Value.instructions).getD [])
      (fun _ _ => by rfl) b

end Store

/-- How looking up and making handles and wrappers behaves. -/
def Conduct.interns : Conduct where
  change := Store.Interns
  fault _ f := f.isBookkeeping = false
  refl := .refl
  trans := .trans
  fault_of_change _ h := h
  plain h := h

open Act Store

variable {s : Store}

/-! ## Contexts -/

/-- Looking up the context of a function may fix one, and changes no value. -/
theorem keeps_contextOfFunction (hs : s.Sound) (id : FunctionId) :
    (contextOfFunction id).Keeps .interns s fun c t =>
      t.Has (.context c) ∧ ∀ v : ValueId, t.get? v = s.get? v := by
  refine reads_fetch.bind fun f hf => ?_
  have hholds := hs.closed.function hf
  split
  · next c hc => exact keeps_pure ⟨hholds.context c hc _ rfl, fun _ => rfl⟩
  · next hnone =>
    -- no context yet: one that is there is fixed, the global one or the module's
    have hfix : ∀ c, s.Has (.context c) → (do
        update id fun f => { f with context := some c }
        return c : Act ContextId).Keeps .interns s fun c t =>
          t.Has (.context c) ∧ ∀ v : ValueId, t.get? v = s.get? v := by
      intro c hc
      have hrevise : ∀ o, s.get? id = some o →
          Kind.Revises .function o { o with context := some c } ∧
            ∀ slot ∈ Kind.slots .function { o with context := some c }, s.HasIn slot := by
        intro o ho
        obtain rfl : f = o := Option.some_inj.mp (hf.symm.trans ho)
        refine ⟨⟨rfl, rfl, rfl, rfl, fun _ h => by rw [hnone] at h; cases h⟩, ?_⟩
        refine Function.holdsOnly_iff.mp { hholds with context := ?_ }
        rintro _ ⟨⟩
        exact hasIn_some.mpr hc
      have hinterns : s.Interns (s.modify id fun o : Function => { o with context := some c }) :=
        .revise hs hrevise fun old =>
          .of_values (.modify id _) fun _ => get?_modify_kind _ _ _ _ (by decide)
      refine Keeps.bind (keeps_update hinterns) fun _ t ht heq => keeps_pure ?_
      subst heq
      exact ⟨Extends.has ht.toExtends hc, fun _ => get?_modify_kind _ _ _ _ (by decide)⟩
    dsimp only
    split
    · exact hfix _ hs.closed.global
    · exact reads_fetch.bind fun m hm => hfix _ ((hs.closed.module hm).context _ rfl)

/-- Looking up the context of a value may fix one, which it then has. -/
theorem keeps_contextOfValue (hs : s.Sound) (id : ValueId) :
    (contextOfValue id).Keeps .interns s fun c t =>
      t.Has (.context c) ∧ t.contextAt id = some c := by
  refine reads_fetch.bind fun v hv => ?_
  have hholds := hs.closed.holdsOnly hv
  split
  · next c hc =>
    refine keeps_pure ⟨hholds.context c hc _ rfl, ?_⟩
    rw [contextAt, hv]
    exact hc
  · next hnone =>
    -- asking the function may fix its context first, which leaves the value as it is
    have hfix : ∀ c t, s.Interns t → t.Has (.context c) → (∀ v : ValueId, t.get? v = s.get? v) → (do
        update id fun v => { v with context := some c }
        return c : Act ContextId).Keeps .interns t fun c t =>
          t.Has (.context c) ∧ t.contextAt id = some c := by
      intro c t hst hc hget
      have ht := hst.sound hs
      have hrevise : ∀ o, t.get? id = some o →
          Kind.Revises .value o { o with context := some c } ∧
            ∀ slot ∈ Kind.slots .value { o with context := some c }, t.HasIn slot := by
        intro o ho
        obtain rfl : v = o := Option.some_inj.mp (hv.symm.trans ((hget id).symm.trans ho))
        refine ⟨⟨rfl, rfl, rfl, rfl, rfl, rfl, rfl, rfl, fun _ h => ?_⟩, ?_⟩
        · rw [hnone] at h
          cases h
        · refine Value.holdsOnly_iff.mp { ht.closed.holdsOnly ho with context := ?_ }
          rintro _ ⟨⟩
          exact hasIn_some.mpr hc
      have hinterns : t.Interns (t.modify id fun o : Value => { o with context := some c }) :=
        .revise ht hrevise fun old => undisturbed_fixContext ht.closed (aside_revise hrevise)
      refine Keeps.bind (keeps_update hinterns) fun _ u hu heq => keeps_pure ?_
      subst heq
      refine ⟨Extends.has hu.toExtends hc, ?_⟩
      rw [contextAt, get?_modify_self, hget, hv]
      rfl
    dsimp only
    split
    · exact (keeps_contextOfFunction hs _).bind fun c t hst hct => hfix c t hst hct.1 hct.2
    · refine reads_fetch.bind fun m hm => ?_
      exact hfix _ s (.refl s) ((hs.closed.module hm).context _ rfl) fun _ => rfl
    · exact hfix _ s (.refl s) hs.closed.global fun _ => rfl

/-- The context of a value is fixed once it has been asked for. -/
theorem keeps_contextOf (hs : s.Sound) (slot : Slot) :
    (contextOf slot).Keeps .interns s fun c t =>
      t.Has (.context c) ∧ ∀ v, slot = .ofValue v → t.contextAt v = some c := by
  unfold contextOf
  split
  · exact (keeps_contextOfFunction hs _).mono fun c t _ h => ⟨h.1, fun v hv => nomatch hv⟩
  · refine reads_fetch.bind fun m hm => keeps_pure ⟨?_, fun v hv => nomatch hv⟩
    exact (hs.closed.module hm).context _ rfl
  · refine reads_valueIn.bind fun v hv => ?_
    refine (keeps_contextOfValue hs v).mono fun c t _ h => ⟨h.1, fun v' hv' => ?_⟩
    obtain rfl : v = v' := by simpa using hv.1.symm.trans hv'
    exact h.2

/-- A function that is there has a context. -/
theorem answers_contextOfFunction (hs : s.Closed) {id : FunctionId} (h : s.Has (.function id)) :
    (contextOfFunction id).Answers s := by
  refine answers_fetch_bind h fun f hf => ?_
  split
  · exact answers_pure _
  · dsimp only
    split
    · exact answers_update.bind fun _ _ _ => answers_pure _
    · next m hm =>
      have hmodule : s.Has (.module m) := (hs.function hf).module m hm _ rfl
      exact answers_fetch_bind hmodule fun _ _ => answers_update.bind fun _ _ _ => answers_pure _

/-- Asking for the context of a value that is there does not fault. -/
theorem answers_contextOf (hs : s.Sound) {v : ValueId} (h : s.Has (.value v)) :
    (contextOf (.ofValue v)).Answers s := by
  have hvalue : (contextOfValue v).Answers s := by
    refine answers_fetch_bind h fun o ho => ?_
    have hholds := hs.closed.holdsOnly ho
    split
    · exact answers_pure _
    · dsimp only
      split
      · next f hf =>
        have hfunction : s.Has (.function f) := hholds.function f hf _ rfl
        refine (answers_contextOfFunction hs.closed hfunction).bind fun _ _ _ => ?_
        exact answers_update.bind fun _ _ _ => answers_pure _
      · next m _ hm =>
        obtain ⟨g, hg, hmodule⟩ := Option.bind_eq_some_iff.mp hm
        have hmodule : s.Has (.module m) := hholds.module g hg m hmodule _ rfl
        exact answers_fetch_bind hmodule fun _ _ => answers_update.bind fun _ _ _ => answers_pure _
      · exact answers_update.bind fun _ _ _ => answers_pure _
  show (valueIn (.ofValue v) >>= contextOfValue).Answers s
  rw [Answers, run_valueIn_bind h]
  exact hvalue

/-- A context that is fixed is answered as it is. -/
theorem run_contextOf {v : ValueId} {c : ContextId} (h : s.contextAt v = some c) :
    (contextOf (.ofValue v)).run s = (.ok c, s) := by
  obtain ⟨o, ho, hc⟩ := Option.bind_eq_some_iff.mp h
  show Act.run (valueIn (.ofValue v) >>= contextOfValue) s = _
  rw [run_valueIn_bind (has_value_iff.mpr ⟨o, ho⟩), contextOfValue, run_fetch_bind ho]
  dsimp only
  rw [hc]
  rfl

/-- A context that is fixed is read without a change. -/
theorem reads_contextOf {v : ValueId} {c : ContextId} (h : s.contextAt v = some c) :
    (contextOf (.ofValue v)).Reads s (· = c) :=
  ⟨.ok c, run_contextOf h, plain_ok c, by rintro _ ⟨⟩; rfl⟩

/-! ## Handles and wrappers -/

theorem handlesIn_eq {c : ContextId} {context : Context} (h : s.get? c = some context) :
    s.handlesIn c = context.handles := by
  rw [handlesIn, h]
  rfl

theorem wrappersIn_eq {c : ContextId} {context : Context} (h : s.get? c = some context) :
    s.wrappersIn c = context.wrappers := by
  rw [wrappersIn, h]
  rfl

/-- A handle is looked up in the context of the value, which is fixed from then on. -/
theorem keeps_handleIfExists (hs : s.Sound) (slot : Slot) :
    (handleIfExists slot).Keeps .interns s fun o t =>
      o = slot.value?.bind t.handleFor? ∧
        ∀ v, slot = .ofValue v → ∃ c, t.contextAt v = some c ∧ t.Has (.context c) := by
  refine (keeps_contextOf hs slot).bind fun c t _ ⟨hc, hfixed⟩ => ?_
  refine reads_fetch.bind fun context hcontext => keeps_pure ⟨?_, fun v hv => ⟨c, hfixed v hv, hc⟩⟩
  cases hvalue : slot.value? with
  | none => rfl
  | some v =>
    have hv := hfixed v (Slot.value?_eq_some_iff.mp hvalue)
    rw [Option.bind_some, Option.bind_some, Context.handle?, Store.handleFor?, hv,
      Option.bind_some, handlesIn_eq hcontext]

/-- A wrapper that may exist is what the table of wrappers has for the handle. -/
theorem reads_wrapperIfExists {context : ContextId} {node : NodeId} :
    (wrapperIfExists context node).Reads s (· = (s.wrappersIn context).lookup node) :=
  reads_fetch.bind_pure fun c hc => by rw [Context.wrapper?, wrappersIn_eq hc]

/-- Where the context of a value is known, making its handle is a single edit. -/
theorem run_enterHandle {v : ValueId} {c : ContextId} (hc : s.contextAt v = some c)
    (handle : Node) : Act.run (do
      let handle ← create .node handle
      update (← contextOf (.ofValue v)) fun c => { c with handles := c.handles ++ [(v, handle)] }
      return handle) s = (.ok (s.nextId .node), s.addHandle c v handle) := by
  have hpushed : (s.push .node handle).contextAt v = some c := by
    rw [contextAt, get?_push_kind _ _ _ (by decide)]
    exact hc
  have hcontextOf : (contextOf (.ofValue v)).run (s.push .node handle) =
      (.ok c, s.push .node handle) := run_contextOf hpushed
  rw [run_bind, run_create]
  dsimp only
  rw [run_bind, hcontextOf]
  rfl

/-- The handle of a value is the one it is looked up with from then on. -/
theorem keeps_handleOf (hs : s.Sound) (slot : Slot) :
    (handleOf slot).Keeps .interns s fun h t =>
      ∃ v, slot = .ofValue v ∧ t.handleFor? v = some h := by
  refine (keeps_handleIfExists hs slot).bind fun o t (hst : s.Interns t) hot => ?_
  obtain ⟨ho, hfixed⟩ := hot
  cases o with
  | some h =>
    refine keeps_pure ?_
    obtain ⟨v, hv, hh⟩ := Option.bind_eq_some_iff.mp ho.symm
    exact ⟨v, Slot.value?_eq_some_iff.mp hv, hh⟩
  | none =>
    refine reads_valueIn.bind fun v hv => reads_fetch.bind fun value hvalue => ?_
    obtain ⟨rfl, hhas⟩ := hv
    obtain ⟨c, hc, hcontext⟩ := hfixed v rfl
    have ht := hst.sound hs
    -- none was found in the context of the value, which is where it would be
    have hnone : v ∉ (t.handlesIn c).map Prod.fst := by
      rw [← lookup_eq_none_iff]
      have hlookup : none = t.handleFor? v := ho
      rw [Store.handleFor?, hc, Option.bind_some] at hlookup
      exact hlookup.symm
    generalize hhandle :
      (if value.isConstant then Node.constantHandle v else .localHandle v) = handle
    have hof : handle.handleOf? = some v := by
      subst hhandle
      split
      · rfl
      · rfl
    have hinterns := Interns.addHandle ht (has_value_iff.mpr hhas) hcontext hc hnone hof
    have hfor : (t.addHandle c v handle).handleFor? v = some (t.nextId .node) := by
      refine (hinterns.sound ht).interned.handleFor?_eq_some.mpr ⟨c, hinterns.more.contextAt hc, ?_⟩
      rw [handlesIn_addHandle hcontext, if_pos rfl]
      exact List.mem_append_right _ List.mem_cons_self
    exact Keeps.of_run (run_enterHandle hc handle) hinterns ⟨v, rfl, hfor⟩

/-- The wrapper of a node in a context is the one that the context knows from then on. -/
theorem keeps_wrapperOf (hs : s.Sound) {context : ContextId} {node : NodeId}
    (hcontext : s.Has (.context context)) (hnode : s.Has (.node node)) :
    (wrapperOf context node).Keeps .interns s fun w t => (node, w) ∈ t.wrappersIn context := by
  refine reads_wrapperIfExists.bind fun o ho => ?_
  cases o with
  | some w => exact keeps_pure ((lookup_eq_some_iff (hs.interned.wrapperOnce context)).mp ho.symm)
  | none =>
    -- making the wrapper and entering it in the table are a single edit
    have hinterns := Interns.addWrapper hs hcontext hnode (lookup_eq_none_iff.mp ho.symm)
    have hrun : Act.run (do
        let wrapper ← create .value
          { type := .metadata, shape := .wrapper node, context := some context }
        update context fun c => { c with wrappers := c.wrappers ++ [(node, wrapper)] }
        return wrapper) s = (.ok (s.nextId .value), s.addWrapper context node) := rfl
    refine Keeps.of_run hrun hinterns ?_
    rw [wrappersIn_addWrapper hcontext, if_pos rfl]
    exact List.mem_append_right _ List.mem_cons_self

/-- The wrapper of a value, made together with the handle that it wraps if need be, is the one that
the value is looked up with from then on. -/
theorem keeps_wrapperOfValue (hs : s.Sound) (slot : Slot) : (do
    let handle ← handleOf slot
    wrapperOf (← contextOf slot) handle : Act ValueId).Keeps .interns s fun w t =>
      ∃ v, slot = Slot.ofValue v ∧ t.wrapperFor? v = some w := by
  refine (keeps_handleOf hs slot).bind fun h t (hst : s.Interns t) ⟨v, hv, hh⟩ => ?_
  subst hv
  have ht := hst.sound hs
  obtain ⟨c, hc, hmem⟩ := ht.interned.handleFor?_eq_some.mp hh
  refine (reads_contextOf hc).bind fun c' hc' => ?_
  subst hc'
  obtain ⟨o, ho, hcontext⟩ := Option.bind_eq_some_iff.mp hc
  have hhas := hasIn_some.mp ((ht.closed.holdsOnly ho).context c' hcontext)
  have hwrapper := keeps_wrapperOf ht hhas (has_of_handleAt (ht.interned.handle hmem))
  refine hwrapper.mono fun w u (htu : t.Interns u) hw => ⟨v, rfl, ?_⟩
  have hu := (htu.sound ht).interned
  exact hu.wrapperFor?_eq_some.mpr
    ⟨c', h, htu.more.contextAt hc, htu.more.handleFor? ht.interned hu hh, hw⟩

/-- Writing into the journal concerns no object. -/
theorem keeps_recordEntry (hs : s.Sound) (entry : Entry) :
    (record entry).Keeps .interns s fun _ t => t = { s with journal := s.journal ++ [entry] } :=
  keeps_modify (Interns.annotate hs s.labelTypes (s.journal ++ [entry]))

/-! ## Finding records -/

/-- The record of a wrapper is a record, and uses it. -/
theorem mem_of_recordOfWrapper? {w r : ValueId} (h : s.recordOfWrapper? w = some r) :
    r ∈ s.usesOf w ∧ s.isRecord r = true :=
  ⟨List.mem_of_find?_eq_some h, List.find?_some h⟩

/-- The record found is the first one among the users of the value's wrapper. -/
theorem keeps_findRecord (hs : s.Sound) (slot : Slot) :
    (findRecord slot).Keeps .interns s fun o t =>
      o = slot.value?.bind fun v => (t.wrapperFor? v).bind t.recordOfWrapper? := by
  refine (keeps_handleIfExists hs slot).bind fun o t (hst : s.Interns t) hot => ?_
  obtain ⟨ho, hfixed⟩ := hot
  cases hvalue : slot.value? with
  | none =>
    rw [hvalue] at ho
    subst ho
    exact keeps_pure rfl
  | some v =>
    obtain rfl := Slot.value?_eq_some_iff.mp hvalue
    obtain ⟨c, hc, hcontext⟩ := hfixed v rfl
    have hwrapper : t.wrapperFor? v = o.bind fun h => (t.wrappersIn c).lookup h := by
      rw [Store.wrapperFor?, hc, ho]
      rfl
    cases o with
    | none => exact keeps_pure (by rw [Option.bind_some, hwrapper]; rfl)
    | some h =>
      refine (reads_contextOf hc).bind fun c' hc' => ?_
      subst hc'
      refine reads_wrapperIfExists.bind fun w hw => ?_
      rw [Option.bind_some, ← hw] at hwrapper
      cases w with
      | none => exact keeps_pure (by rw [Option.bind_some, hwrapper]; rfl)
      | some w =>
        refine reads_get.bind fun t' ht' => ?_
        subst ht'
        exact keeps_pure (by rw [Option.bind_some, hwrapper]; rfl)

/-! ## Values that are there -/

/-- A context that a value is in is there. -/
theorem has_of_contextAt (hs : s.Sound) {v : ValueId} {c : ContextId}
    (h : s.contextAt v = some c) : s.Has (.context c) := by
  obtain ⟨o, ho, hcontext⟩ := Option.bind_eq_some_iff.mp h
  exact (hs.closed.holdsOnly ho).context c hcontext _ rfl

theorem answers_wrapperIfExists (hs : s.Sound) {v : ValueId} {c : ContextId}
    (h : s.contextAt v = some c) (node : NodeId) : (wrapperIfExists c node).Answers s :=
  answers_fetch_bind (has_of_contextAt hs h) fun _ _ => answers_pure _

section Answers

variable (hs : s.Sound) {v : ValueId} (h : s.Has (.value v))

include hs h

/-- Whether a value has a handle is answered. -/
theorem answers_handleIfExists : (handleIfExists (.ofValue v)).Answers s := by
  refine (answers_contextOf hs h).bind fun c t hrun => ?_
  obtain ⟨hst, _, hfixed⟩ := (keeps_contextOf hs (.ofValue v)).ok hrun
  have hst : s.Interns t := hst
  have ht := hst.sound hs
  exact answers_fetch_bind (has_of_contextAt ht (hfixed v rfl)) fun _ _ => answers_pure _

/-- Looking for the record of a value that is there does not fault. -/
theorem answers_findRecord : (findRecord (.ofValue v)).Answers s := by
  refine (answers_handleIfExists hs h).bind fun o t hrun => ?_
  cases o with
  | none => exact answers_pure _
  | some n =>
    obtain ⟨hst, _, hfixed⟩ := (keeps_handleIfExists hs (.ofValue v)).ok hrun
    have hst : s.Interns t := hst
    have ht := hst.sound hs
    obtain ⟨c, hc, _⟩ := hfixed v rfl
    refine Answers.bind ⟨c, t, run_contextOf hc⟩ fun c' t' hrun' => ?_
    rw [run_contextOf hc] at hrun'
    cases hrun'
    refine (answers_wrapperIfExists ht hc n).bind fun w u _ => ?_
    cases w with
    | none => exact answers_pure _
    | some w => exact ⟨_, _, rfl⟩

/-- A value that is there gets a handle. -/
theorem answers_handleOf : (handleOf (.ofValue v)).Answers s := by
  refine (answers_handleIfExists hs h).bind fun o t hrun => ?_
  cases o with
  | some n => exact answers_pure _
  | none =>
    obtain ⟨hst, _, hfixed⟩ := (keeps_handleIfExists hs (.ofValue v)).ok hrun
    have hst : s.Interns t := hst
    obtain ⟨c, hc, _⟩ := hfixed v rfl
    obtain ⟨o, ho⟩ := has_value_iff.mp (hst.more.has h)
    rw [Answers, run_valueIn_bind (hst.more.has h), run_fetch_bind ho]
    exact ⟨_, _, run_enterHandle hc _⟩

/-- Making the wrapper of a value that is there does not fault. -/
theorem answers_wrapperOfValue : (do
    let handle ← handleOf (.ofValue v)
    wrapperOf (← contextOf (.ofValue v)) handle : Act ValueId).Answers s := by
  refine (answers_handleOf hs h).bind fun n t hrun => ?_
  obtain ⟨hst, v', hv', hn⟩ := (keeps_handleOf hs (.ofValue v)).ok hrun
  obtain rfl : v = v' := by simpa using hv'
  have hst : s.Interns t := hst
  have ht := hst.sound hs
  obtain ⟨c, hc, _⟩ := ht.interned.handleFor?_eq_some.mp hn
  refine Answers.bind ⟨c, t, run_contextOf hc⟩ fun c' t' hrun' => ?_
  rw [run_contextOf hc] at hrun'
  cases hrun'
  refine Answers.bind (answers_wrapperIfExists ht hc n) fun w u _ => ?_
  cases w with
  | some w => exact answers_pure _
  | none => exact ⟨_, _, rfl⟩

end Answers

end SsaDebugInfo
