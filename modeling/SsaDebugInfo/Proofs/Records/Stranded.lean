import SsaDebugInfo.Proofs.Records.Describing
import SsaDebugInfo.Proofs.Store.Adjoining

/-!
# Records that are not placed

Binding a value makes a record before it looks for the place of the record. If there is no such
place, the record stays behind. It knows a wrapper, and the wrapper knows it: if the wrapper was
there before, it keeps the record alive from then on.

- `FixesContexts`: what asking for a context does.
- `wrapperOfValue_adjoins`: what making a wrapper does.
- `Strands`, `bindValue_strands`: what a binding that faults leaves.
- `LeavesRecord`, `bindValue_leavesRecord`: what a collection makes of that.
-/

namespace SsaDebugInfo

/-- Fixing a context adds it to what a value holds. -/
theorem Value.mem_slots_context {o : Value} (hnone : o.context = none) (c : ContextId)
    (slot : Slot) : slot ∈ ({ o with context := some c } : Value).slots ↔
      slot ∈ o.slots ∨ slot = some (.context c) := by
  simp only [Value.slots, hnone, List.mem_append, Option.toList_some, Option.toList_none,
    List.map_cons, List.map_nil, List.mem_singleton, List.not_mem_nil, Function.comp_apply]
  tauto

/-- Fixing a context adds it to what a function holds. -/
theorem Function.mem_slots_context {o : Function} (hnone : o.context = none) (c : ContextId)
    (slot : Slot) : slot ∈ ({ o with context := some c } : Function).slots ↔
      slot ∈ o.slots ∨ slot = some (.context c) := by
  simp [Function.slots, hnone, or_assoc]

/-- Apart from its users a value holds the same whatever these are. -/
theorem Value.mem_slots_uses (o : Value) (uses : List ValueId) (slot : Slot) :
    slot ∈ ({ o with uses } : Value).slots ↔
      (∃ u ∈ uses, Slot.ofValue u = slot) ∨ slot ∈ ({ o with uses := [] } : Value).slots := by
  simp only [Value.slots, List.mem_append, List.mem_map, List.map_nil, List.not_mem_nil, false_or,
    or_assoc]

open Act Store

variable {s t u : Store} {v w r : ValueId} {c : ContextId} {more : Slot → Prop}

/-! ## Fixing contexts -/

namespace Store

/-- Contexts have been fixed where there was none, and nothing else has changed. -/
structure FixesContexts (s t : Store) : Prop extends s.SameTables t where
  has : ∀ ref, t.Has ref → s.Has ref
  holds : s.HoldsMore (fun slot => ∃ c, slot = some (.context c)) t

instance : IsPreorder Store FixesContexts where
  refl s := ⟨.refl s, fun _ h => h, .refl s⟩
  trans _ _ _ hst htu := ⟨hst.toSameTables.trans htu.toSameTables,
    fun ref h => hst.has ref (htu.has ref h), hst.holds.trans htu.holds⟩

namespace FixesContexts

theorem value {o : Value} (ho : s.get? v = some o) (hnone : o.context = none) (c : ContextId) :
    s.FixesContexts (s.modify v fun o => { o with context := some c }) := by
  have hslots := Value.mem_slots_context hnone c
  refine ⟨⟨.modify v _, .modify SameEntries.refl v fun o' ho' => ⟨rfl, fun c' hc' => ?_⟩⟩,
    fun _ => has_modify.mp, (HoldsMore.refl s).modify fun _ o' ho' => ?_⟩
  · obtain rfl := Option.some_inj.mp (ho.symm.trans ho')
    cases hnone.symm.trans hc'
  · obtain rfl := Option.some_inj.mp (ho.symm.trans ho')
    exact ⟨fun slot h => (hslots slot).mpr (.inl h),
      fun slot h => ((hslots slot).mp h).imp_right fun heq => ⟨c, heq⟩⟩

theorem function {f : FunctionId} {o : Function} (ho : s.get? f = some o)
    (hnone : o.context = none) (c : ContextId) :
    s.FixesContexts (s.modify f fun o => { o with context := some c }) := by
  have hslots := Function.mem_slots_context hnone c
  refine ⟨⟨.modify f _, .modify SameEntries.refl f fun _ _ => trivial⟩,
    fun _ => has_modify.mp, (HoldsMore.refl s).modify fun _ o' ho' => ?_⟩
  obtain rfl := Option.some_inj.mp (ho.symm.trans ho')
  exact ⟨fun slot h => (hslots slot).mpr (.inl h),
    fun slot h => ((hslots slot).mp h).imp_right fun heq => ⟨c, heq⟩⟩

/-- Nothing has come beside a store in which contexts have been fixed. -/
theorem adjoins (h : s.FixesContexts t) (hs : s.Interned)
    (hmore : ∀ c, more (some (.context c))) : s.Adjoins more t := by
  have hsame : s.Adjoins more s := .refl hs
  constructor
  · exact h.holds.weaken fun slot ⟨c, hc⟩ => hc ▸ hmore c
  · exact fun c hc => h.has _ hc
  · intro c
    rw [h.handlesIn]
    exact hsame.handles c
  · intro c
    rw [h.wrappersIn]
    exact hsame.wrappers c

end FixesContexts

end Store

/-- Fixing the context of a function does not concern values. -/
theorem contextOfFunction_fixes (id : FunctionId) :
    (contextOfFunction id).Ends s
      (fun _ t => s.FixesContexts t ∧ ∀ v : ValueId, t.get? v = s.get? v)
      fun _ => s.FixesContexts := by
  have hsame : s.FixesContexts s := refl_of Store.FixesContexts s
  refine Reads.bind_ends reads_fetch (fun _ => hsame) fun f hf => ?_
  split
  · exact ends_pure ⟨hsame, fun _ => rfl⟩
  · next hnone =>
    have hfix : ∀ c, (do
        update id fun f => { f with context := some c }
        return c : Act ContextId).Ends s
          (fun _ t => s.FixesContexts t ∧ ∀ v : ValueId, t.get? v = s.get? v)
          fun _ => s.FixesContexts :=
      fun c => ends_update_bind (ends_pure
        ⟨.function hf hnone c, fun v => get?_modify_kind _ _ _ _ (by decide)⟩)
    dsimp only
    split
    · exact hfix globalContext
    · exact Reads.bind_ends reads_fetch (fun _ => hsame) fun m _ => hfix m.context

/-- Asking for the context of a value fixes contexts where there was none. -/
theorem contextOf_fixes (v : ValueId) :
    (contextOf (.ofValue v)).Ends s (fun _ => s.FixesContexts) fun _ => s.FixesContexts := by
  have hsame : s.FixesContexts s := refl_of Store.FixesContexts s
  refine Reads.bind_ends reads_valueIn (fun _ => hsame) fun id _ => ?_
  refine Reads.bind_ends reads_fetch (fun _ => hsame) fun o ho => ?_
  split
  · exact ends_pure hsame
  · next hnone =>
    have hfix : ∀ c t, s.FixesContexts t → t.get? id = s.get? id → (do
        update id fun o => { o with context := some c }
        return c : Act ContextId).Ends t (fun _ => s.FixesContexts) fun _ => s.FixesContexts :=
      fun c t ht hget => ends_update_bind (ends_pure
        (trans_of Store.FixesContexts ht (.value (hget.trans ho) hnone c)))
    dsimp only
    split
    · -- the context of the function is fixed first, which leaves the value without one
      exact (contextOfFunction_fixes _).bind fun c t ⟨ht, hget⟩ => hfix c t ht (hget id)
    · exact Reads.bind_ends reads_fetch (fun _ => hsame) fun m _ => hfix m.context s hsame rfl
    · exact hfix globalContext s hsame rfl

/-! ## Making the wrapper of a value -/

section Furnishing

variable (hhas : s.Has (.context c)) (hc : s.contextAt v = some c)

include hhas

/-- A wrapper is looked up in a context, or made. -/
theorem run_wrapperOf (n : NodeId) : (wrapperOf c n).run s = match (s.wrappersIn c).lookup n with
      | some w => (.ok w, s)
      | none => (.ok (s.nextId .value), s.addWrapper c n) := by
  obtain ⟨context, hcontext⟩ := Option.isSome_iff_exists.mp hhas
  have hexists : (wrapperIfExists c n).run s = (.ok ((s.wrappersIn c).lookup n), s) := by
    rw [wrapperIfExists, run_fetch_bind hcontext, wrappersIn_eq hcontext]
    rfl
  rw [wrapperOf, run_bind, hexists]
  cases (s.wrappersIn c).lookup n with
  | some w => rfl
  | none => rfl

include hc

/-- Where the context of a value is known, the handle of the value is looked up or made. -/
theorem run_handleOf {o : Value} (ho : s.get? v = some o) :
    (handleOf (.ofValue v)).run s = match s.handleFor? v with
      | some n => (.ok n, s)
      | none => (.ok (s.nextId .node), s.addHandle c v (o.handle v)) := by
  obtain ⟨context, hcontext⟩ := Option.isSome_iff_exists.mp hhas
  have hexists : (handleIfExists (.ofValue v)).run s = (.ok (s.handleFor? v), s) := by
    rw [handleIfExists, run_bind, run_contextOf hc]
    dsimp only
    rw [run_fetch_bind hcontext, handleFor?, hc, Option.bind_some, handlesIn_eq hcontext]
    rfl
  rw [handleOf, run_bind, hexists]
  cases s.handleFor? v with
  | some n => rfl
  | none =>
    dsimp only
    rw [run_valueIn_bind (has_value_iff.mpr ⟨o, ho⟩), run_fetch_bind ho]
    exact run_enterHandle hc _

end Furnishing

/-- A node that comes next has no wrapper yet. -/
theorem lookup_nextId (hs : s.Sound) (c : ContextId) :
    (s.wrappersIn c).lookup (s.nextId .node) = none := by
  refine lookup_eq_none_iff.mpr fun hmem => ?_
  obtain ⟨⟨n, w⟩, hentry, rfl⟩ := List.mem_map.mp hmem
  obtain ⟨o, ho, hwrapped⟩ := Option.bind_eq_some_iff.mp (hs.interned.wrapper hentry)
  exact @ne_nextId .node s _ (hasIn_some.mp ((hs.closed.holdsOnly ho).wrapped _ hwrapped)) rfl

/-- Where the context of a value is known, its wrapper is looked up, or it comes beside what was
there before. -/
theorem wrapperOfValue_furnishes (hs : s.Sound) (hc : s.contextAt v = some c)
    (h : u.Adjoins more s) : (do
      let handle ← handleOf (.ofValue v)
      wrapperOf (← contextOf (.ofValue v)) handle : Act ValueId).Ends s
        (fun w t => s.wrapperFor? v = some w ∧ t = s ∨
          s.wrapperFor? v = none ∧ ¬ u.Has (.value w) ∧ u.Adjoins more t) fun _ _ => False := by
  have hhas : s.Has (.context c) := has_of_contextAt hs hc
  obtain ⟨o, ho, _⟩ := Option.bind_eq_some_iff.mp hc
  have hhandle := run_handleOf hhas hc ho
  cases hn : s.handleFor? v with
  | some n =>
    rw [hn] at hhandle
    have hwrapper : s.wrapperFor? v = (s.wrappersIn c).lookup n := by
      rw [wrapperFor?, hc, Option.bind_some, hn, Option.bind_some]
    refine ends_run_bind hhandle (ends_run_bind (run_contextOf hc) ?_)
    rw [Ends, run_wrapperOf hhas, hwrapper]
    cases (s.wrappersIn c).lookup n with
    | some w => exact .inl ⟨rfl, rfl⟩
    | none => exact .inr ⟨rfl, @Adjoins.not_has_nextId .value u s more h, h.addWrapper hhas n⟩
  | none =>
    rw [hn] at hhandle
    have hwrapper : s.wrapperFor? v = none := by
      rw [wrapperFor?, hc, Option.bind_some, hn]
      rfl
    -- the handle is new, so that it has no wrapper
    have h' : u.Adjoins more (s.addHandle c v (o.handle v)) := h.addHandle hhas v _
    have hhas' : (s.addHandle c v (o.handle v)).Has (.context c) :=
      (moreTables_addHandle hhas).has hhas
    have hc' : (s.addHandle c v (o.handle v)).contextAt v = some c :=
      (contextAt_addHandle v).trans hc
    refine ends_run_bind hhandle (ends_run_bind (run_contextOf hc') ?_)
    rw [Ends, run_wrapperOf hhas', wrappersIn_addHandle, lookup_nextId hs]
    exact .inr ⟨hwrapper, @Adjoins.not_has_nextId .value u _ more h', h'.addWrapper hhas' _⟩

/-- Making the wrapper of a value changes nothing if there is one, and otherwise the wrapper comes
beside what was there. -/
theorem wrapperOfValue_adjoins (hs : s.Sound) (hv : s.Has (.value v))
    (hmore : ∀ c, more (some (.context c))) : (do
      let handle ← handleOf (.ofValue v)
      wrapperOf (← contextOf (.ofValue v)) handle : Act ValueId).Ends s
        (fun w t => t.Sound ∧ t.wrapperFor? v = some w ∧ (s.wrapperFor? v = some w ∧ t = s ∨
          s.wrapperFor? v = none ∧ ¬ s.Has (.value w) ∧ s.Adjoins more t)) fun _ _ => False := by
  have hmade : (do
      let handle ← handleOf (.ofValue v)
      wrapperOf (← contextOf (.ofValue v)) handle : Act ValueId).Ends s
        (fun w t => s.wrapperFor? v = some w ∧ t = s ∨
          s.wrapperFor? v = none ∧ ¬ s.Has (.value w) ∧ s.Adjoins more t) fun _ _ => False := by
    cases hcontext : s.contextAt v with
    | some c =>
      exact wrapperOfValue_furnishes hs hcontext (.refl hs.interned)
    | none =>
      -- the context is fixed when it is first asked for, and from then on it is known
      obtain ⟨c, u, hrun⟩ := answers_contextOf hs hv
      have hfixes : s.FixesContexts u := (contextOf_fixes v).ok hrun
      obtain ⟨hinterns, _, hfixed⟩ := (keeps_contextOf hs (.ofValue v)).ok hrun
      have hinterns : s.Interns u := hinterns
      have hc : u.contextAt v = some c := hfixed v rfl
      have hexists : (handleIfExists (.ofValue v)).run s = (handleIfExists (.ofValue v)).run u := by
        rw [handleIfExists, run_bind, run_bind, hrun, run_contextOf hc]
      have hhandle : (handleOf (.ofValue v)).run s = (handleOf (.ofValue v)).run u := by
        rw [handleOf, run_bind, run_bind, hexists]
      have hnone : s.wrapperFor? v = none := by
        rw [wrapperFor?, hcontext]
        rfl
      have hnone' : u.wrapperFor? v = none := (hs.interned.wrapperFor?_congr hv
        (fun _ => hfixes.contextAt) hfixes.handlesIn hfixes.wrappersIn).trans hnone
      have hends := wrapperOfValue_furnishes (hinterns.sound hs) hc
        (hfixes.adjoins hs.interned hmore)
      rw [Ends, run_bind, hhandle, ← run_bind]
      refine hends.mono (fun w t ht => .inr ?_) fun _ _ hf => hf
      rcases ht with ⟨hsome, _⟩ | ⟨_, hnew, hadjoins⟩
      · cases hnone'.symm.trans hsome
      · exact ⟨hnone, hnew, hadjoins⟩
  refine (hmade.also (keeps_wrapperOfValue hs (.ofValue v)).ends).mono ?_ fun _ _ hf => hf
  rintro w t ⟨ht, hst, v', hv', hw⟩
  obtain rfl : v = v' := by simpa using hv'
  have hst : s.Interns t := hst
  exact ⟨hst.sound hs, hw, ht⟩

/-! ## Making the record -/

namespace Store

variable {binding : Binding} {loc : Slot}

/-- A record comes beside what was there before, unless its wrapper was there and knows it then. -/
theorem Adjoins.addRecord (h : s.Adjoins more u)
    (hw : s.Has (.value w) → more (.ofValue (u.nextId .value))) (f : Value → Value) :
    s.Adjoins more ((u.addRecord w binding).modify (u.nextId .value) f) := by
  have hkind : Kind.value ≠ .context := by decide
  have hnew : ¬ s.Has (.value (u.nextId .value)) := @Adjoins.not_has_nextId .value s u more h
  have hblank : s.Adjoins more (u.push .value (blankRecord binding)) := h.push hkind _
  have hheld : s.Adjoins more
      ((u.push .value (blankRecord binding)).putOperands (u.nextId .value) [.ofValue w]) :=
    Adjoins.modify_new hblank hkind hnew
  have hknown : s.Adjoins more (u.addRecord w binding) := by
    refine Adjoins.modify hheld hkind fun hhas o _ =>
      ⟨fun slot hslot => ?_, fun slot hslot => ?_⟩
    · refine (o.mem_slots_uses _ slot).mpr (((o.mem_slots_uses o.uses slot).mp hslot).imp_left ?_)
      rintro ⟨x, hx, rfl⟩
      exact ⟨x, mem_enterUses.mpr (.inl hx), rfl⟩
    · -- what the wrapper holds besides is the record
      rcases (o.mem_slots_uses _ slot).mp hslot with ⟨x, hx, rfl⟩ | hrest
      · rcases mem_enterUses.mp hx with hold | rfl
        · exact .inl ((o.mem_slots_uses o.uses _).mpr (.inl ⟨x, hold, rfl⟩))
        · exact .inr (hw hhas)
      · exact .inl ((o.mem_slots_uses o.uses slot).mpr (.inr hrest))
  exact Adjoins.modify_new hknown hkind hnew

/-- The wrapper of a record knows the record last. -/
theorem usesOf_addRecord (hs : s.Closed) (hw : s.Has (.value w)) :
    (s.addRecord w binding).usesOf w = s.usesOf w ++ [s.nextId .value] := by
  obtain ⟨o, ho⟩ := has_value_iff.mp hw
  have hne : w ≠ s.nextId .value := @ne_nextId .value s w hw
  have hnot : s.nextId .value ∉ o.uses := fun hmem =>
    @ne_nextId .value s _ (hasIn_some.mp ((hs.holdsOnly ho).uses _ hmem)) rfl
  rw [usesOf, get?_addRecord hw, if_neg hne, if_pos rfl, ho, usesOf_eq ho]
  show enterUses (s.nextId .value) o.uses = _
  rw [enterUses, if_neg (by simpa using hnot)]

theorem has_addRecord {ref : Ref} (h : (s.addRecord w binding).Has ref) :
    s.Has ref ∨ ref = .value (s.nextId .value) := by
  unfold addRecord putOperands mapUses at h
  exact (has_push.mp (has_modify.mp (has_modify.mp h))).symm

/-- A record has been made for a value and stands nowhere. What was there holds no more than it did
but for contexts and, if the value had a wrapper, the record: that is all that has come then, and
the wrapper knows it. -/
structure Strands (s : Store) (r v : ValueId) (binding : Binding) (loc : Slot) (t : Store) : Prop
    extends s.AddsRecord r t where
  sound : t.Sound
  describes : t.Describes r v binding loc
  instructionsOf : ∀ b, t.instructionsOf b = s.instructionsOf b
  adjoins : s.Adjoins (fun slot => (∃ c, slot = some (.context c)) ∨
    slot = .ofValue r ∧ (s.wrapperFor? v).isSome = true) t
  known : ∀ w, s.wrapperFor? v = some w → t.usesOf w = s.usesOf w ++ [r] ∧
    ∀ ref, t.Has ref → s.Has ref ∨ ref = .value r

end Store

variable {binding : Binding} {loc : Slot}

/-- A record that has just been made is stranded. -/
theorem makeRecord_strands (hs : s.Sound) (hv : s.Has (.value v)) (hvar : s.HasIn binding.var)
    (hexpression : s.HasIn binding.expression) (hloc : s.HasIn loc) :
    (makeRecord (.ofValue v) binding loc).Ends s (fun r t => s.Strands r v binding loc t)
      fun _ _ => False := by
  let contexts (slot : Slot) : Prop := ∃ c, slot = some (.context c)
  have hmade : (makeRecord (.ofValue v) binding loc).Ends s (fun r t =>
      s.Adjoins (fun slot =>
        contexts slot ∨ slot = .ofValue r ∧ (s.wrapperFor? v).isSome = true) t ∧
      ∀ w, s.wrapperFor? v = some w → t.usesOf w = s.usesOf w ++ [r] ∧
        ∀ ref, t.Has ref → s.Has ref ∨ ref = .value r) fun _ _ => False := by
    rw [makeRecord_eq]
    refine (@wrapperOfValue_adjoins s v contexts hs hv fun c => ⟨c, rfl⟩).bind
      fun w u ⟨hu, hw, hmade⟩ => ?_
    have hhas : u.Has (.value w) := by
      obtain ⟨n, hwrapped, _⟩ := hu.interned.of_wrapperFor? hw
      exact has_of_wrappedAt hwrapped
    refine ends_run_bind (run_makeDebugValue hu.interned hw) (ends_update_bind (ends_pure ?_))
    rcases hmade with ⟨hknown, rfl⟩ | ⟨hnone, hnew, hadjoins⟩
    · -- the wrapper was there: nothing but the record has come
      have hsome : (u.wrapperFor? v).isSome = true := Option.isSome_of_eq_some hknown
      refine ⟨Adjoins.addRecord (.refl hu.interned) (fun _ => .inr ⟨rfl, hsome⟩) _,
        fun w' hw' => ⟨?_, fun ref href => has_addRecord (has_modify.mp href)⟩⟩
      obtain rfl := Option.some_inj.mp (hknown.symm.trans hw')
      have huses : (u.addRecord w binding).usesOf w = u.usesOf w ++ [u.nextId .value] :=
        usesOf_addRecord hu.closed hhas
      rw [← huses]
      exact asked_modify (fun o : Option (Object .value) => (o.map Value.uses).getD [])
        (fun o _ => o.uses_mapInstruction _) w
    · refine ⟨(hadjoins.weaken fun _ => .inl).addRecord (fun hw => absurd hw hnew) _,
        fun w' hw' => ?_⟩
      cases hnone.symm.trans hw'
  have hdescribes := makeRecord_describes hs hv hvar hexpression hloc
  refine (hdescribes.also hmade).mono ?_ fun _ _ hf => hf
  rintro r t ⟨⟨ht, hstill, hadds, hr⟩, hadjoins, hknown⟩
  exact ⟨hadds, ht, hr, hstill.instructionsOf, hadjoins, hknown⟩

/-! ## Linking the record -/

namespace Store

/-- Only a value has changed, and what functions know of names; no list has. -/
structure LinksOnly (r : ValueId) (s t : Store) : Prop where
  same : ∀ {kind : Kind} (id : Id kind), kind ≠ .function → id.ref ≠ .value r →
    t.get? id = s.get? id
  function : ∀ {f : FunctionId} {o : Function}, s.get? f = some o →
    ∃ p : Function, t.get? f = some p ∧ p.slots = o.slots
  has : ∀ ref, t.Has ref → s.Has ref
  instructionsOf : ∀ b, t.instructionsOf b = s.instructionsOf b

instance : IsPreorder Store (LinksOnly r) where
  refl _ := ⟨fun _ _ _ => rfl, fun h => ⟨_, h, rfl⟩, fun _ h => h, fun _ => rfl⟩
  trans _ _ _ hst htu := by
    constructor
    · exact fun id hkind hid => (htu.same id hkind hid).trans (hst.same id hkind hid)
    · intro f o ho
      obtain ⟨p, hp, hslots⟩ := hst.function ho
      obtain ⟨q, hq, hslots'⟩ := htu.function hp
      exact ⟨q, hq, hslots'.trans hslots⟩
    · exact fun ref h => hst.has ref (htu.has ref h)
    · exact fun b => (htu.instructionsOf b).trans (hst.instructionsOf b)

namespace LinksOnly

theorem value {f : Value → Value} (hf : ∀ o, (f o).instructions = o.instructions) :
    s.LinksOnly r (s.modify r f) := by
  constructor
  · intro kind id _ hid
    by_cases hk : kind = .value
    · subst hk
      exact get?_modify_other _ _ fun h => hid (congrArg Ref.value h)
    · exact get?_modify_kind _ _ _ _ hk
  · exact fun ho => ⟨_, (get?_modify_kind _ _ _ _ (by decide)).trans ho, rfl⟩
  · exact fun _ => has_modify.mp
  · exact fun b => asked_modify
      (fun o : Option (Object .value) => (o.map Value.instructions).getD []) (fun o _ => hf o) b

theorem names {f : FunctionId} {g : Function → Function} (hg : ∀ o, (g o).slots = o.slots) :
    s.LinksOnly r (s.modify f g) := by
  constructor
  · exact fun id hkind _ => get?_modify_kind _ _ _ _ hkind
  · intro f' o ho
    rw [get?_modify]
    split
    · rw [ho]
      exact ⟨g o, rfl, hg o⟩
    · exact ⟨o, ho, rfl⟩
  · exact fun _ => has_modify.mp
  · intro b
    have hsame : (s.modify f g).get? b = s.get? b := get?_modify_kind _ _ _ _ (by decide)
    rw [Store.instructionsOf, hsame, Store.instructionsOf]

end LinksOnly

end Store

theorem linksOnly_setBlock (r : ValueId) (block : Option ValueId) :
    (setBlock r block).Only (LinksOnly r) := by
  have hmove : ∀ g, (setFunction r g).Only (LinksOnly r) := fun g =>
    only_setFunction (fun f _ s => .value fun o => o.instructions_mapSite f)
      (fun f base s => .names fun o => rfl) fun f name s => .names fun o => rfl
  refine Only.bind (only_update fun s => .value fun o => o.instructions_mapInstruction _)
    fun _ => ?_
  split
  · exact hmove none
  · exact (only_fetch _).bind fun _ => hmove _

/-- An instruction for which no place is found has got a link, and nothing else. -/
theorem insert_linksOnly (block r : ValueId) (slot : Slot) (put : Nat → List Slot → List Slot) :
    (do
      setBlock r (some block)
      let place ← indexIn block slot
      update block (·.mapInstructions (put place)) : Act Unit).Ends s (fun _ _ => True)
        fun _ t => s.LinksOnly r t := by
  refine ((linksOnly_setBlock r (some block)).ends s).bind fun _ t ht => ?_
  have hfind : (indexIn block slot).Only (LinksOnly r) := only_indexIn block slot
  refine Ends.bind ((hfind.ends t).mono (fun _ _ h => h) fun _ _ h => trans_of (LinksOnly r) ht h)
    fun _ _ _ => ?_
  exact ends_update trivial

/-- So has one that cannot be put behind another one. -/
theorem placeAfter_linksOnly (r : ValueId) (after : Slot) :
    (placeAfter r after).Ends s (fun _ _ => True) fun _ t => s.LinksOnly r t := by
  have hsame : s.LinksOnly r s := refl_of (LinksOnly r) s
  refine ends_get_bind (Reads.bind_ends reads_require (fun _ => hsame) fun _ _ => ?_)
  refine Reads.bind_ends reads_instructionIn (fun _ => hsame) fun target _ => ends_get_bind ?_
  split
  · exact ends_throw hsame
  · exact insert_linksOnly _ r after fun place => (·.insertIdx (place + 1) (.ofValue r))

namespace Store

variable {binding : Binding} {loc : Slot}

/-- Whatever link a stranded record has got, it is stranded. -/
theorem Strands.linksOnly (h : s.Strands r v binding loc t) (hlinks : t.LinksOnly r u)
    (hmoves : t.Moves (· == .ofValue r) u) : s.Strands r v binding loc u := by
  have hr : t.isRecord r = true := h.describes.isRecord
  -- the record was not there before, so that no value from before is touched by its link
  have hne : ∀ {x}, s.Has (.value x) → x ≠ r := fun hx heq => h.new (heq ▸ hx)
  have hsame : ∀ {x}, x ≠ r → u.get? x = t.get? x := fun hx =>
    hlinks.same _ (by decide) fun heq => hx (Ref.value.inj heq)
  have hnode : ∀ n : NodeId, u.get? n = t.get? n := fun n =>
    hlinks.same n (by decide) fun heq => nomatch heq
  have hmore : t.MoreTables u := hmoves.toAside.toSameTables.more
  constructor
  · constructor
    · refine ⟨h.toMoreTables.trans hmore, fun {x a} ha => ?_, fun hn => (hnode _).trans (h.node hn)⟩
      obtain ⟨b, hb, hstays⟩ := h.stays ha
      exact ⟨b, (hsame (hne (has_value_iff.mpr ⟨a, ha⟩))).trans hb, hstays⟩
    · exact h.new
    · intro x hx
      refine (h.values x (hlinks.has _ hx)).imp_right (.imp_right ?_)
      rintro ⟨n, hn⟩
      exact ⟨n, hmore.wrappedAt hn⟩
  · exact h.sound.of_aside hmoves.toAside
  · exact h.describes.carry hmore hmoves.carries (hmoves.toAside.operandsOf r)
  · exact fun b => (hlinks.instructionsOf b).trans (h.instructionsOf b)
  · constructor
    · constructor
      intro kind id o ho
      obtain ⟨p, hp, hslots⟩ := h.adjoins.kept id ho
      by_cases hkind : kind = .function
      · subst hkind
        obtain ⟨q, hq, heq⟩ := hlinks.function hp
        refine ⟨q, hq, ?_⟩
        show o.slots ⊆ q.slots ∧ ∀ slot ∈ q.slots, _
        rw [heq]
        exact hslots
      · refine ⟨p, (hlinks.same id hkind fun heq => h.new ?_).trans hp, hslots⟩
        rw [← heq]
        exact (has_ref id).mpr (by rw [ho]; rfl)
    · exact fun c hc => h.adjoins.context c (hlinks.has _ hc)
    · intro c
      rw [hmoves.toAside.toSameTables.handlesIn]
      exact h.adjoins.handles c
    · intro c
      rw [hmoves.toAside.toSameTables.wrappersIn]
      exact h.adjoins.wrappers c
  · intro w hw
    obtain ⟨huses, hhas⟩ := h.known w hw
    exact ⟨(hmoves.toAside.usesOf w).trans huses, fun ref href => hhas ref (hlinks.has ref href)⟩

end Store

/-- A binding faults before anything has been made if it is given no anchor or two, and otherwise
it leaves a record stranded. -/
theorem bindValue_strands (hs : s.Sound) (hv : s.Has (.value v)) (hvar : s.HasIn binding.var)
    (hexpression : s.HasIn binding.expression) (hloc : s.HasIn loc) (before after : Slot) :
    (bindValue (.ofValue v) binding loc before after).Ends s (fun _ _ => True) fun _ t =>
      before.isNone = after.isNone ∧ t = s ∨
        before.isNone ≠ after.isNone ∧ ∃ r, s.Strands r v binding loc t := by
  by_cases hone : before.isNone = after.isNone
  · rw [bindValue, hone, bne_self_eq_false]
    exact .inl ⟨rfl, rfl⟩
  · have hrequire : (require (before.isNone != after.isNone)).run s = (.ok (), s) := by
      rw [run_require, if_pos (bne_iff_ne.mpr hone)]
    refine ends_run_bind hrequire ?_
    refine (makeRecord_strands hs hv hvar hexpression hloc).sure.bind fun r t ht => ?_
    have hr : t.Has (.value r) := has_of_isRecord ht.describes.isRecord
    -- whichever anchor is given, a fault of the placement has moved nothing but the record's link
    have hplaced : ∀ {act : Act Unit}, act.Keeps (.moves (· == .ofValue r)) t (fun _ _ => True) →
        act.Ends t (fun _ _ => True) (fun _ u => t.LinksOnly r u) →
        (act >>= fun _ => pure r).Ends t (fun _ _ => True) fun _ u =>
          before.isNone = after.isNone ∧ u = s ∨
            before.isNone ≠ after.isNone ∧ ∃ r, s.Strands r v binding loc u := by
      intro act hkeeps hlinks
      refine Ends.bind ((hkeeps.ends.and hlinks).mono (fun _ _ _ => trivial) ?_)
        fun _ _ _ => ends_pure trivial
      rintro f u ⟨⟨hmoves, _⟩, hlinked⟩
      exact .inr ⟨hone, r, ht.linksOnly hlinked hmoves⟩
    dsimp only
    split
    · refine Reads.bind_ends reads_instructionIn (fun _ => .inr ⟨hone, r, ht⟩) fun target _ => ?_
      refine ends_get_bind ?_
      split
      · exact ends_throw (.inr ⟨hone, r, ht⟩)
      · next block hblock =>
        obtain ⟨o, ho, hlink⟩ := Option.bind_eq_some_iff.mp hblock
        have hblock : t.Has (.value block) := (ht.sound.closed.holdsOnly ho).block block hlink _ rfl
        exact hplaced (keeps_insertBefore ht.sound.closed hblock hr (by simp) before)
          (insert_linksOnly block r before fun place => (·.insertIdx place (.ofValue r)))
    · exact hplaced (keeps_placeAfter ht.sound.closed fun block hblock =>
        keeps_insertAfter ht.sound.closed hblock hr (by simp) after) (placeAfter_linksOnly r after)

/-! ## What a collection leaves -/

namespace Store

variable {roots : List Slot}

/-- Contexts know and blocks list what they did, and the same records track the same values and may
be found for this one. If something is left behind, it is one record that has come: it tracks this
value and may be found for it. -/
structure LeavesRecord (left : Prop) (r v : ValueId) (s t : Store) : Prop where
  new : ¬ s.Has (.value r)
  handlesIn : ∀ c, t.handlesIn c = s.handlesIn c
  wrappersIn : ∀ c, t.wrappersIn c = s.wrappersIn c
  instructionsOf : ∀ b, t.instructionsOf b = s.instructionsOf b
  tracks : ∀ r' x, t.tracks r' x = true ↔ s.tracks r' x = true ∨ left ∧ r' = r ∧ x = v
  mayFind : ∀ r', t.MayFind v r' ↔ s.MayFind v r' ∨ left ∧ r' = r

namespace Strands

variable (h : s.Strands r v binding loc t) (hs : s.Sound) (hsettled : s.Settled roots)
  (hroots : ∀ slot ∈ roots, s.HasIn slot)

include h hs hsettled hroots

/-- The record is kept if the value had a wrapper, and nothing else is that has come. -/
theorem live_iff (ref : Ref) : t.Live roots ref ↔
    s.Has ref ∨ ref = .value r ∧ (s.wrapperFor? v).isSome = true := by
  let extra (ref : Ref) : Prop := ref = .value r ∧ (s.wrapperFor? v).isSome = true
  show t.Live roots ref ↔ s.Has ref ∨ extra ref
  refine h.adjoins.live_iff hs.closed h.sound.closed hsettled hroots (fun ref hmore => ?_)
    (fun holder held hholder hheld => ?_) (fun ref hextra => ?_) ref
  · refine hmore.imp (fun ⟨c, hc⟩ => ⟨c, Option.some_inj.mp hc⟩) fun ⟨hr, hsome⟩ => ?_
    exact ⟨Option.some_inj.mp hr, hsome⟩
  · obtain ⟨rfl, hsome⟩ := hholder
    obtain ⟨w, hw⟩ := Option.isSome_iff_exists.mp hsome
    obtain ⟨o, ho, hslot⟩ := (@mem_holds_ref .value t r held).mp hheld
    have hhas : t.Has held := h.sound.closed.held r ho _ hslot _ rfl
    exact ((h.known w hw).2 held hhas).imp_right fun heq => ⟨heq, hsome⟩
  · -- the wrapper was there, and knows the record
    obtain ⟨rfl, hsome⟩ := hextra
    obtain ⟨w, hw⟩ := Option.isSome_iff_exists.mp hsome
    obtain ⟨n, hwrapped, _⟩ := hs.interned.of_wrapperFor? hw
    have hlive : t.Live roots (.value w) := h.adjoins.live (hsettled _ (has_of_wrappedAt hwrapped))
    obtain ⟨o, ho⟩ := has_value_iff.mp (h.toMoreTables.has (has_of_wrappedAt hwrapped))
    have hmem : r ∈ o.uses := by
      rw [← usesOf_eq ho, (h.known w hw).1]
      exact List.mem_append_right _ List.mem_cons_self
    exact (live_holdsOnly ho hlive).uses r hmem _ rfl

/-- Contexts know what they knew. -/
theorem tables_collect (c : ContextId) : (t.collect roots).handlesIn c = s.handlesIn c ∧
    (t.collect roots).wrappersIn c = s.wrappersIn c := by
  have hlive := h.live_iff hs hsettled hroots
  have hcontext : ∀ c, t.Live roots (.context c) ↔ s.Has (.context c) := fun c => by
    simp [hlive]
  refine ⟨h.adjoins.handlesIn_collect hcontext (fun n => by simp [hlive]) c,
    h.adjoins.wrappersIn_collect hcontext (fun w n hn => ?_) h.sound.interned c⟩
  -- the record is no wrapper
  have hne : w ≠ r := by
    rintro rfl
    obtain ⟨o, ho, hrecord⟩ := isRecord_iff.mp h.describes.isRecord
    rw [wrappedAt_eq ho, Value.wrapped?_of_isDebugValue hrecord] at hn
    cases hn
  simp [hlive, hne]

/-- Every block lists what it listed. -/
theorem instructionsOf_collect (b : ValueId) :
    (t.collect roots).instructionsOf b = s.instructionsOf b := by
  rw [Store.instructionsOf_collect]
  split
  · exact h.instructionsOf b
  · next hlive =>
    have hnone : s.get? b = none := Option.not_isSome_iff_eq_none.mp fun hsome =>
      hlive ((h.live_iff hs hsettled hroots _).mpr (.inl ((has_ref b).mpr hsome)))
    rw [Store.instructionsOf, hnone]
    rfl

/-- What was tracked is tracked by the same records; the value is by the new one besides, if the
value had a wrapper. -/
theorem tracks_collect (hv : s.Has (.value v)) (r' x : ValueId) :
    (t.collect roots).tracks r' x = true ↔ s.tracks r' x = true ∨
      (s.wrapperFor? v).isSome = true ∧ r' = r ∧ x = v := by
  have hlive := h.live_iff hs hsettled hroots
  constructor
  · intro htracks
    obtain ⟨htracks, hr⟩ := tracks_of_collect htracks
    rcases (hlive _).mp hr with hold | ⟨heq, hsome⟩
    · exact .inl ((h.toRetains.tracks hs hold x).symm.trans htracks)
    · cases heq
      exact .inr ⟨hsome, rfl, h.describes.tracks.mp htracks⟩
  · rintro (htracks | ⟨hsome, rfl, rfl⟩)
    · have hr := has_of_isRecord (tracks_iff.mp htracks).1
      exact Store.tracks_collect ((hlive _).mpr (.inl hr))
        ((hlive _).mpr (.inl (has_of_tracks htracks))) ((h.toRetains.tracks hs hr x).trans htracks)
    · exact Store.tracks_collect ((hlive _).mpr (.inr ⟨rfl, hsome⟩)) ((hlive _).mpr (.inl hv))
        (h.describes.tracks.mpr rfl)

/-- What the finder may yield for the value it may still yield, and the new record besides, if the
value had a wrapper. -/
theorem mayFind_collect (hv : s.Has (.value v)) (r' : ValueId) :
    (t.collect roots).MayFind v r' ↔ s.MayFind v r' ∨
      (s.wrapperFor? v).isSome = true ∧ r' = r := by
  have hlive := h.live_iff hs hsettled hroots
  have htables := h.tables_collect hs hsettled hroots
  have hwrapper : (t.collect roots).wrapperFor? v = s.wrapperFor? v := by
    refine hs.interned.wrapperFor?_congr hv (fun c hc => ?_) (fun c => (htables c).1)
      fun c => (htables c).2
    rw [contextAt_collect, if_pos ((hlive _).mpr (.inl hv))]
    exact h.toMoreTables.contextAt hc
  unfold MayFind
  rw [hwrapper]
  cases hw : s.wrapperFor? v with
  | none => simp
  | some w =>
    obtain ⟨n, hwrapped, _⟩ := hs.interned.of_wrapperFor? hw
    have huses : (t.collect roots).usesOf w = s.usesOf w ++ [r] := by
      rw [usesOf_collect, if_pos ((hlive _).mpr (.inl (has_of_wrappedAt hwrapped)))]
      exact (h.known w hw).1
    have hrecord : (t.collect roots).isRecord r = true := by
      rw [isRecord_collect, if_pos ((hlive _).mpr (.inr ⟨rfl, Option.isSome_of_eq_some hw⟩))]
      exact h.describes.isRecord
    -- who used the wrapper before is alive, so that it is a record exactly if it was one
    have hold : ∀ {u}, u ∈ s.usesOf w → (t.collect roots).isRecord u = s.isRecord u := by
      intro u hu
      obtain ⟨o, ho⟩ := has_value_iff.mp (has_of_wrappedAt hwrapped)
      rw [usesOf_eq ho] at hu
      have hhas : s.Has (.value u) := hasIn_some.mp ((hs.closed.holdsOnly ho).uses u hu)
      rw [isRecord_collect, if_pos ((hlive _).mpr (.inl hhas)), h.toRetains.isRecord hhas]
    constructor
    · rintro ⟨_, ⟨⟩, hmem, hrec⟩
      rw [huses, List.mem_append, List.mem_singleton] at hmem
      rcases hmem with hmem | rfl
      · exact .inl ⟨w, rfl, hmem, (hold hmem).symm.trans hrec⟩
      · exact .inr ⟨rfl, rfl⟩
    · rintro (⟨_, ⟨⟩, hmem, hrec⟩ | ⟨_, rfl⟩)
      · exact ⟨w, rfl, huses ▸ List.mem_append_left _ hmem, (hold hmem).trans hrec⟩
      · exact ⟨w, rfl, huses ▸ List.mem_append_right _ List.mem_cons_self, hrecord⟩

theorem leavesRecord_collect (hv : s.Has (.value v)) :
    s.LeavesRecord ((s.wrapperFor? v).isSome = true) r v (t.collect roots) where
  new := h.new
  handlesIn c := (h.tables_collect hs hsettled hroots c).1
  wrappersIn c := (h.tables_collect hs hsettled hroots c).2
  instructionsOf := h.instructionsOf_collect hs hsettled hroots
  tracks := h.tracks_collect hs hsettled hroots hv
  mayFind := h.mayFind_collect hs hsettled hroots hv

end Strands

/-- Where nothing is left behind, all is the same. -/
theorem leavesRecord_self {left : Prop} (hleft : ¬ left) :
    s.LeavesRecord left (s.nextId .value) v s where
  new hhas := @ne_nextId .value s _ hhas rfl
  handlesIn _ := rfl
  wrappersIn _ := rfl
  instructionsOf _ := rfl
  tracks _ _ := (or_iff_left fun h => hleft h.1).symm
  mayFind _ := (or_iff_left fun h => hleft h.1).symm

end Store

/-- After a binding that faults, a collection leaves no more than the record: and this if the
binding had one anchor, and the value had a wrapper. -/
theorem bindValue_leavesRecord {roots : List Slot} (hs : s.Sound) (hsettled : s.Settled roots)
    (hroots : ∀ slot ∈ roots, s.HasIn slot) (hv : s.Has (.value v)) (hvar : s.HasIn binding.var)
    (hexpression : s.HasIn binding.expression) (hloc : s.HasIn loc) (before after : Slot) :
    (bindValue (.ofValue v) binding loc before after).Ends s (fun _ _ => True) fun _ t =>
      ∃ r, s.LeavesRecord (before.isNone ≠ after.isNone ∧ (s.wrapperFor? v).isSome = true) r v
        (t.collect roots) := by
  refine (bindValue_strands hs hv hvar hexpression hloc before after).mono (fun _ _ h => h) ?_
  rintro f t (⟨hnone, rfl⟩ | ⟨hone, r, ht⟩)
  · rw [hsettled.collect_eq hs.interned]
    exact ⟨_, leavesRecord_self fun h => h.1 hnone⟩
  · refine ⟨r, ?_⟩
    rw [and_iff_right hone]
    exact ht.leavesRecord_collect hs hsettled hroots hv

end SsaDebugInfo
