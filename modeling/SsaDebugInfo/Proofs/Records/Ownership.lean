import SsaDebugInfo.Proofs.Records.Tracking
import SsaDebugInfo.Proofs.Store.Touch

/-!
# Who owns handles and wrappers

A record owns the wrapper that it holds, the wrapper owns its handle, and the handle of a constant
owns the constant. The tables of contexts own nothing, and the way back from a wrapper to the
records that use it keeps alive no wrapper that nothing else keeps.

- `Unheld.not_standsFor`: a collection leaves neither a handle nor a wrapper of a value if nothing
  refers to one.
- `Unheld.handle?_eq_none`, `Unheld.wrapper?_eq_none`: and contexts forget them.
- `Strong`, `Touch.strong`, `Strong.collect`: the handles of constants are strong.
- `Secured`, `Secured.touched`, `Secured.collect`: a wrapper of a strong handle keeps the constant
  and both entries as long as it is there.
-/

namespace SsaDebugInfo

open Act Store

variable {s t : Store} {roots : List Slot} {c : Scope} {v w r : ValueId} {n : NodeId}
  {context : ContextId}

namespace Store

/-! ## What keeps a handle -/

/-- The value that a reference stands for: as a handle of the value, or as a wrapper of one. -/
def standsFor? (s : Store) : Ref → Option ValueId
  | .node n => s.handleAt n
  | .value w => (s.wrappedAt w).bind s.handleAt
  | _ => none

/-- Nothing refers to a handle of the value or to a wrapper of one: no root, and no object, be it by
an operand, by a field of metadata or by any other place. That a wrapper holds its handle does not
count. -/
structure Unheld (s : Store) (roots : List Slot) (v : ValueId) : Prop where
  root : ∀ ref ∈ roots.filterMap id, s.standsFor? ref ≠ some v
  object : ∀ holder ∈ s.made, ∀ ref ∈ s.holds holder, s.standsFor? ref = some v →
    s.standsFor? holder = some v

instance : Decidable (s.Unheld roots v) :=
  decidable_of_iff ((∀ ref ∈ roots.filterMap id, s.standsFor? ref ≠ some v) ∧
    ∀ holder ∈ s.made, ∀ ref ∈ s.holds holder, s.standsFor? ref = some v →
      s.standsFor? holder = some v) ⟨fun h => ⟨h.1, h.2⟩, fun h => ⟨h.root, h.object⟩⟩

/-- What a live object holds it holds after a collection, too. -/
theorem mem_holds_collect {holder ref : Ref} (hlive : s.Live roots holder)
    (h : ref ∈ s.holds holder) :
    holder ∈ (s.collect roots).made ∧ ref ∈ (s.collect roots).holds holder := by
  obtain ⟨kind, id, rfl⟩ := exists_id holder
  obtain ⟨o, ho, hslot⟩ := mem_holds_ref.mp h
  have hkind : kind ≠ .context := by
    rintro rfl
    cases hslot
  have ho' : (s.collect roots).get? id = some o := by rwa [get?_collect hkind, if_pos hlive]
  exact ⟨mem_made_of_get? ho', mem_holds_ref.mpr ⟨o, ho', hslot⟩⟩

theorem live_of_standsFor?_collect {ref : Ref} (h : (s.collect roots).standsFor? ref = some v) :
    s.Live roots ref := by
  cases ref with
  | node n =>
    have hhandle : (s.collect roots).handleAt n = some v := h
    rw [handleAt_collect] at hhandle
    split at hhandle
    · assumption
    · cases hhandle
  | value w =>
    obtain ⟨n, hwrapped, _⟩ := Option.bind_eq_some_iff.mp h
    rw [wrappedAt_collect] at hwrapped
    split at hwrapped
    · assumption
    · cases hwrapped
  | _ => cases h

/-- What stands for a value goes in a collection after which nothing refers to it: the way from the
roots to a live object never enters what stands for the value. -/
theorem Unheld.not_standsFor (h : (s.collect roots).Unheld roots v) (ref : Ref) :
    (s.collect roots).standsFor? ref ≠ some v := by
  intro hstands
  have hreach := live_iff_reach.mp (live_of_standsFor?_collect hstands)
  induction hreach with
  | root hroot =>
    rcases List.mem_cons.mp hroot with rfl | hroot
    · cases hstands
    · exact h.root _ hroot hstands
  | edge hreach hheld ih =>
    obtain ⟨hmade, hheld⟩ := mem_holds_collect (live_iff_reach.mpr hreach) hheld
    exact ih (h.object _ hmade _ hheld hstands)

/-- No context knows a handle of a value that nothing refers to. -/
theorem Unheld.handle?_eq_none (hs : s.Sound) (h : (s.collect roots).Unheld roots v)
    {o : Context} (ho : (s.collect roots).get? context = some o) : o.handle? v = none := by
  refine lookup_eq_none_iff.mpr fun hmem => ?_
  obtain ⟨⟨v', n⟩, hentry, hkey⟩ := List.mem_map.mp hmem
  obtain rfl : v' = v := hkey
  rw [← handlesIn_eq ho] at hentry
  exact h.not_standsFor (.node n) (hs.collect.interned.handle hentry)

/-- No context knows a wrapper for a handle of a value that nothing refers to. -/
theorem Unheld.wrapper?_eq_none (hs : s.Sound) (h : (s.collect roots).Unheld roots v)
    {o : Context} (ho : (s.collect roots).get? context = some o) (hn : s.handleAt n = some v) :
    o.wrapper? n = none := by
  refine lookup_eq_none_iff.mpr fun hmem => ?_
  obtain ⟨⟨n', w⟩, hentry, hkey⟩ := List.mem_map.mp hmem
  obtain rfl : n' = n := hkey
  rw [← wrappersIn_eq ho] at hentry
  -- a wrapper that is still there keeps its handle
  have hwrapped := hs.collect.interned.wrapper hentry
  rw [wrappedAt_collect] at hwrapped
  split at hwrapped
  · next hlive =>
    refine h.not_standsFor (.node n') ?_
    show (s.collect roots).handleAt n' = some v
    rw [handleAt_collect, if_pos (live_of_wrappedAt hlive hwrapped), hn]
  · cases hwrapped

/-! ## What a handle keeps -/

/-- The handles of constants are strong, and handles were made for values. -/
structure Strong (s : Store) : Prop where
  given : ∀ {n v}, s.handleAt n = some v → v.index < s.values.size
  strong : ∀ {n v o}, s.handleAt n = some v → s.get? v = some o → o.isConstant = true →
    s.get? n = some (.constantHandle v)

theorem strong_initial : Store.initial.Strong := by
  have hhandle : ∀ n, Store.initial.handleAt n = none := fun n => by
    rw [handleAt, get?_initial n (by decide), Option.bind_none]
  constructor
  · intro n v hn
    rw [hhandle] at hn
    cases hn
  · intro n v o hn
    rw [hhandle] at hn
    cases hn

end Store

/-- A handle is one that was there, or one that was just made for a value. -/
theorem Touch.handleAt_eq_some (h : Touch c s t) (hn : t.handleAt n = some v) :
    s.handleAt n = some v ∨ ∃ o, s.get? v = some o ∧ t.get? n = some (o.handle v) := by
  have hmodify : ∀ {id : NodeId} {f : Node → Node}, (∀ m, (f m).handleOf? = m.handleOf?) →
      (s.modify id f).handleAt n = s.handleAt n := fun hf =>
    asked_modify (fun o : Option (Object .node) => o.bind Node.handleOf?) (fun m _ => hf m) n
  cases h with
  | annotate => exact .inl hn
  | @change kind id f hf =>
    cases kind with
    | node =>
      refine .inl ((hmodify fun m => ?_).symm.trans hn)
      rw [← (f m).handleOf?_core, (hf m).1, m.handleOf?_core]
    | _ => exact .inl hn
  | @create kind object hnew =>
    cases kind with
    | node =>
      rw [handleAt, get?_push] at hn
      split at hn
      · rw [Option.bind_some, hnew.1] at hn
        cases hn
      · exact .inl hn
    | _ => exact .inl hn
  | @addHandle id o ho _ =>
    by_cases hid : n = s.nextId .node
    · subst hid
      rw [handleAt, get?_push_self, Option.bind_some, o.handleOf?_handle] at hn
      cases hn
      exact .inr ⟨o, ho, get?_push_self s _⟩
    · rw [handleAt, get?_push_other s _ hid] at hn
      exact .inl hn
  | index => exact .inl hn
  | describe d =>
    cases d with
    | extendUnit unit globals subprograms =>
      exact .inl ((hmodify fun m => m.handleOf?_extend globals subprograms).symm.trans hn)
    | _ => exact .inl hn

theorem Touches.handle (h : Touches c s t) (hn : s.get? n = some (.constantHandle v)) :
    t.get? n = some (.constantHandle v) := by
  obtain ⟨m, hm, rfl | ⟨hnone, _⟩⟩ := h.persists hn
  · exact hm
  · cases hnone

/-- A single change leaves the handles of constants strong. -/
theorem Touch.strong (h : Touch c s t) (hs : s.Strong) : t.Strong where
  given hn := by
    refine Nat.lt_of_lt_of_le ?_ (h.extends.size .value)
    rcases h.handleAt_eq_some hn with hold | ⟨o, ho, _⟩
    · exact hs.given hold
    · exact index_lt_of_get? ho
  strong {n v p} hn hp hconstant := by
    have hbefore : ∀ {o}, s.get? v = some o → o.isConstant = true := by
      intro o ho
      obtain ⟨q, hq, hcore⟩ := h.persists ho
      obtain rfl := Option.some_inj.mp (hp.symm.trans hq)
      rwa [← Value.isConstant_of_core hcore]
    rcases h.handleAt_eq_some hn with hold | ⟨o, ho, hhandle⟩
    · have hhas : t.Has (.value v) := has_value_iff.mpr ⟨p, hp⟩
      obtain ⟨o, ho⟩ := has_value_iff.mp (h.extends.has_value_of_lt hhas (hs.given hold))
      exact Touches.handle (.single h) (hs.strong hold ho (hbefore ho))
    · rw [hhandle, Value.handle, if_pos (hbefore ho)]

namespace Store

/-- A collection leaves the handles of constants strong. -/
theorem Strong.collect (hs : s.Strong) : (s.collect roots).Strong where
  given hn := by
    rw [handleAt_collect] at hn
    split at hn
    · rw [size_values_collect]
      exact hs.given hn
    · cases hn
  strong {n v o} hn ho hconstant := by
    obtain ⟨ho, _⟩ := get?_of_get?_collect (by decide) ho
    rw [handleAt_collect] at hn
    split at hn
    · next hlive =>
      exact (get?_collect (by decide)).trans ((if_pos hlive).trans (hs.strong hn ho hconstant))
    · cases hn

/-! ## What a wrapper keeps -/

/-- A wrapper wraps the strong handle of a value, and the value's context knows both. -/
structure Secured (s : Store) (w : ValueId) (n : NodeId) (v : ValueId) (context : ContextId) :
    Prop where
  wrapped : s.wrappedAt w = some n
  handle : s.get? n = some (.constantHandle v)
  fixed : s.contextAt v = some context
  handled : (v, n) ∈ s.handlesIn context
  wrapper : (n, w) ∈ s.wrappersIn context

namespace Secured

/-- Whatever is done, as long as no handle, wrapper or entry goes. -/
theorem touched (h : s.Secured w n v context) (hmore : s.MoreTables t)
    (htouches : Touches c s t) : t.Secured w n v context where
  wrapped := hmore.wrappedAt h.wrapped
  handle := htouches.handle h.handle
  fixed := hmore.contextAt h.fixed
  handled := hmore.handlesIn context h.handled
  wrapper := hmore.wrappersIn context h.wrapper

theorem live (h : s.Secured w n v context) (hlive : s.Live roots (.value w)) :
    s.Live roots (.node n) ∧ s.Live roots (.value v) := by
  have hnode := live_of_wrappedAt hlive h.wrapped
  exact ⟨hnode, live_of_held n h.handle hnode (List.mem_singleton_self _)⟩

/-- A wrapper that stays keeps its handle, the handle its constant, the constant its context, and
with all these both entries stay. -/
theorem collect (h : s.Secured w n v context) (hlive : s.Live roots (.value w)) :
    (s.collect roots).Secured w n v context := by
  obtain ⟨hnode, hvalue⟩ := h.live hlive
  have hcontext := live_of_contextAt hvalue h.fixed
  constructor
  · rw [wrappedAt_collect, if_pos hlive]
    exact h.wrapped
  · exact (get?_collect (by decide)).trans ((if_pos hnode).trans h.handle)
  · rw [contextAt_collect, if_pos hvalue]
    exact h.fixed
  · rw [handlesIn_collect, if_pos hcontext]
    exact List.mem_filter.mpr ⟨h.handled, decide_eq_true hnode⟩
  · rw [wrappersIn_collect, if_pos hcontext]
    exact List.mem_filter.mpr ⟨h.wrapper, decide_eq_true hlive⟩

theorem handleAt (h : s.Secured w n v context) : s.handleAt n = some v := by
  rw [Store.handleAt, h.handle]
  rfl

theorem has (h : s.Secured w n v context) : s.Has (.value v) := by
  obtain ⟨o, ho, _⟩ := Option.bind_eq_some_iff.mp h.fixed
  exact has_value_iff.mpr ⟨o, ho⟩

/-- The context looks handle and wrapper up. -/
theorem lookup (hs : s.Sound) (h : s.Secured w n v context) :
    ∃ c : Context, s.get? context = some c ∧ c.handle? v = some n ∧ c.wrapper? n = some w := by
  obtain ⟨o, ho, hfixed⟩ := Option.bind_eq_some_iff.mp h.fixed
  have hhas : s.Has (.context context) := (hs.closed.holdsOnly ho).context context hfixed _ rfl
  obtain ⟨c, hc⟩ := Option.isSome_iff_exists.mp hhas
  have hhandles := hs.interned.handleOnce context
  have hwrappers := hs.interned.wrapperOnce context
  have hhandled := h.handled
  have hwrapper := h.wrapper
  rw [handlesIn_eq hc] at hhandles hhandled
  rw [wrappersIn_eq hc] at hwrappers hwrapper
  exact ⟨c, hc, (lookup_eq_some_iff hhandles).mpr hhandled,
    (lookup_eq_some_iff hwrappers).mpr hwrapper⟩

/-- A record that holds the wrapper tracks the value and yields it. -/
theorem tracked (h : s.Secured w n v context) (hrecord : s.isRecord r = true)
    (hoperands : s.operandsOf r = [.ofValue w]) :
    s.tracks r v = true ∧ (trackedBy r).run s = (.ok (some v), s) := by
  refine ⟨tracks_iff.mpr
    ⟨hrecord, w, [], n, hoperands, h.wrapped, h.handleAt, h.has⟩, ?_⟩
  have hunwrap : s.unwrap (.ofValue w) = .ok (some v) :=
    unwrap_eq_some.mpr ⟨w, n, rfl, h.wrapped, h.handleAt, h.has⟩
  obtain ⟨o, ho⟩ := has_value_iff.mp (has_of_isRecord hrecord)
  rw [operandsOf_eq ho] at hoperands
  rw [trackedBy, operandAt, bind_assoc, run_fetch_bind ho, hoperands]
  exact (run_ask _ s).trans (by rw [hunwrap])

end Secured

/-- The wrapper that a record of a constant holds is secured. -/
theorem Recorded.secured (hs : s.Sound) (hrecorded : s.Recorded) (hstrong : s.Strong)
    (htracks : s.tracks r v = true) {o : Value} (ho : s.get? v = some o)
    (hconstant : o.isConstant = true) :
    ∃ w n context, s.operandsOf r = [.ofValue w] ∧ s.Secured w n v context := by
  have hv : s.Has (.value v) := has_value_iff.mpr ⟨o, ho⟩
  obtain ⟨_, w, hw, hoperands⟩ := (hrecorded.tracks_iff hs.interned hv).mp htracks
  obtain ⟨context, n, hcontext, hn, hwrapper⟩ := hs.interned.wrapperFor?_eq_some.mp hw
  obtain ⟨context', hcontext', hhandled⟩ := hs.interned.handleFor?_eq_some.mp hn
  obtain rfl := Option.some_inj.mp (hcontext.symm.trans hcontext')
  exact ⟨w, n, context, hoperands, hs.interned.wrapper hwrapper,
    hstrong.strong (hs.interned.handle hhandled) ho hconstant, hcontext, hhandled, hwrapper⟩

end Store

end SsaDebugInfo
