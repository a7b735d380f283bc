import SsaDebugInfo.Proofs.Ir.Uses

/-!
# Sound stores

A store is sound if no object holds what is not there, handles and wrappers are interned, and no
value lists a user twice. Every change that the program makes keeps a store sound, and collection
does.

A wrapper is tied (`Store.Tied`) if it wraps a handle and is the wrapper that the handle's value is
looked up with, as long as that value is there.
-/

namespace SsaDebugInfo.Store

variable {s t : Store} {roots : List Slot}

/-- No object holds what is not there, handles and wrappers are interned, and no value lists a user
twice. -/
structure Sound (s : Store) : Prop where
  closed : s.Closed
  interned : s.Interned
  once : ∀ v, (s.usesOf v).Nodup

namespace Sound

theorem of_aside (hs : s.Sound) (h : s.Aside t) : t.Sound where
  closed := h.closed hs.closed
  interned := hs.interned.of_sameTables h.toSameTables
  once v := by
    rw [h.usesOf]
    exact hs.once v

theorem of_reuses (hs : s.Sound) {user : ValueId} {touched : Slot → Prop}
    (h : Reuses user touched s t) : t.Sound where
  closed := h.closed hs.closed
  interned := hs.interned.of_sameTables h.toSameTables
  once := h.once hs.once

theorem addHandle (hs : s.Sound) {c : ContextId} {v : ValueId} {handle : Node}
    (hv : s.Has (.value v)) (hc : s.Has (.context c)) (hcontext : s.contextAt v = some c)
    (hnone : v ∉ (s.handlesIn c).map Prod.fst) (hhandle : handle.handleOf? = some v) :
    (s.addHandle c v handle).Sound where
  closed := by
    refine (hs.closed.push fun slot hslot => ?_).modify fun _ _ _ h => nomatch h
    have hslot : slot = .ofValue v := by
      cases handle with
      | constantHandle value =>
        cases hhandle
        exact List.mem_singleton.mp hslot
      | localHandle value => cases hslot
      | _ => cases hhandle
    rw [hslot]
    exact hasIn_some.mpr hv
  interned := hs.interned.addHandle hv hc hcontext hnone hhandle
  once v := by
    rw [keepsUses_addHandle.usesOf]
    exact hs.once v

theorem addWrapper (hs : s.Sound) {c : ContextId} {h : NodeId} (hc : s.Has (.context c))
    (hh : s.Has (.node h)) (hnone : h ∉ (s.wrappersIn c).map Prod.fst) :
    (s.addWrapper c h).Sound where
  closed := by
    refine (hs.closed.push ?_).modify fun _ _ _ h => nomatch h
    refine List.forall_mem_cons.mpr ⟨hasIn_some.mpr hc, ?_⟩
    exact List.forall_mem_singleton.mpr (hasIn_some.mpr hh)
  interned := hs.interned.addWrapper hc hnone
  once v := by
    rw [keepsUses_addWrapper.usesOf]
    exact hs.once v

theorem collect (hs : s.Sound) : (s.collect roots).Sound where
  closed := hs.closed.collect
  interned := hs.interned.collect
  once v := by
    rw [usesOf_collect]
    split
    · exact hs.once v
    · exact List.nodup_nil

end Sound

theorem sound_initial : Store.initial.Sound where
  closed := closed_initial
  interned := interned_initial
  once v := by
    rw [usesOf, get?_initial v (by decide)]
    exact List.nodup_nil

/-! ## Tied wrappers -/

/-- The wrapper wraps a handle, and as long as the value of the handle is there, the wrapper is the
one that the value is looked up with. -/
def Tied (s : Store) (w : ValueId) : Prop :=
  ∃ h v, s.wrappedAt w = some h ∧ s.handleAt h = some v ∧
    (s.Has (.value v) → ∃ c, s.contextAt v = some c ∧ (h, w) ∈ s.wrappersIn c)

/-- A tied wrapper stays tied while no handle, wrapper or entry goes. -/
theorem Tied.of_more (hs : s.Interned) {w : ValueId} (hw : s.Tied w) (h : s.MoreTables t) :
    t.Tied w := by
  obtain ⟨n, v, hwrapped, hhandle, hentry⟩ := hw
  refine ⟨n, v, h.wrappedAt hwrapped, h.handleAt hhandle, fun hv => ?_⟩
  -- identities are not given out twice: a value that is there now was there before
  obtain ⟨c, hc, hmem⟩ := hentry (h.has_value_of_lt hv (hs.given hhandle))
  exact ⟨c, h.contextAt hc, h.wrappersIn c hmem⟩

/-- A tied wrapper that is live stays tied in a collection. -/
theorem Tied.collect {w : ValueId} (hw : s.Tied w) (hlive : s.Live roots (.value w)) :
    (s.collect roots).Tied w := by
  obtain ⟨n, v, hwrapped, hhandle, hentry⟩ := hw
  have hnode : s.Live roots (.node n) := live_of_wrappedAt hlive hwrapped
  refine ⟨n, v, by rwa [wrappedAt_collect, if_pos hlive], by rwa [handleAt_collect, if_pos hnode],
    fun hv => ?_⟩
  obtain ⟨hvlive, hv⟩ := has_collect.mp hv
  obtain ⟨c, hc, hmem⟩ := hentry hv
  refine ⟨c, by rwa [contextAt_collect, if_pos hvlive], ?_⟩
  rw [wrappersIn_collect, if_pos (live_of_contextAt hvlive hc)]
  exact List.mem_filter.mpr ⟨hmem, decide_eq_true hlive⟩

end SsaDebugInfo.Store
