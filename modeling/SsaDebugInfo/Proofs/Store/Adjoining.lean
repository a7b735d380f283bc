import SsaDebugInfo.Proofs.Records.Intact
import SsaDebugInfo.Proofs.Records.Ownership

/-!
# What comes and is kept by nothing

Objects may come beside those of a store that keeps alive all that is there. A collection takes
them away again unless something that was there has come to hold them, and contexts then know the
handles and wrappers that they knew.

- `Settled`, `settled_collect`, `Settled.collect_eq`: nothing is left for a collection to take.
- `HoldsMore`, `Adjoins`: what was there holds what it held, and what it may hold besides.
- `HoldsMore.live`, `Adjoins.live_iff`: what is kept alive afterwards.
- `Adjoins.handlesIn_collect`, `Adjoins.wrappersIn_collect`: what contexts know after a collection.
-/

namespace SsaDebugInfo

namespace Table

variable {kind : Kind} {α : Type} {t : Table kind α}

/-- Nothing is emptied if all objects are to be kept. -/
theorem retain_eq_self {keep : Id kind → Bool} (h : ∀ id, (t.get? id).isSome → keep id = true) :
    t.retain keep = t := by
  suffices hcells : (t.retain keep).cells = t.cells from congrArg Table.mk hcells
  refine List.ext_getElem? fun i => ?_
  rw [retain, List.getElem?_mapIdx]
  cases hcell : t.cells[i]? with
  | none => rfl
  | some cell =>
    cases cell with
    | none => simp
    | some a =>
      have hsome : (t.get? ⟨i⟩).isSome := by
        rw [get?, hcell]
        rfl
      simp [h ⟨i⟩ hsome]

/-- A change that leaves all objects as they are leaves the table as it is. -/
theorem map_eq_self {f : α → α} (h : ∀ id a, t.get? id = some a → f a = a) : t.map f = t := by
  suffices hcells : (t.map f).cells = t.cells from congrArg Table.mk hcells
  refine List.ext_getElem? fun i => ?_
  rw [map, List.getElem?_map]
  cases hcell : t.cells[i]? with
  | none => rfl
  | some cell =>
    cases cell with
    | none => rfl
    | some a =>
      have hget : t.get? ⟨i⟩ = some a := by
        rw [get?, hcell]
        rfl
      simp [h ⟨i⟩ a hget]

end Table

namespace Store

variable {kind : Kind} {s t u : Store} {roots : List Slot} {more : Slot → Prop}

/-! ## Settled stores -/

/-- The roots keep alive all that is there. -/
def Settled (s : Store) (roots : List Slot) : Prop :=
  ∀ ref, s.Has ref → s.Live roots ref

/-- What is live stays so in a collection: the whole way to it is kept. -/
theorem live_collect {ref : Ref} (h : s.Live roots ref) : (s.collect roots).Live roots ref := by
  induction live_iff_reach.mp h with
  | root hroot => exact live_iff_reach.mpr (.root hroot)
  | edge hreach hheld ih =>
    have hlive := live_iff_reach.mpr hreach
    have hkept := (mem_holds_collect hlive hheld).2
    exact live_iff_reach.mpr (.edge (live_iff_reach.mp (ih hlive)) hkept)

theorem settled_collect : (s.collect roots).Settled roots :=
  fun _ h => live_collect (has_collect.mp h).1

/-- More roots keep more alive. -/
theorem live_mono {more : List Slot} (hsub : roots ⊆ more) {ref : Ref} (h : s.Live roots ref) :
    s.Live more ref := by
  induction live_iff_reach.mp h with
  | root hroot =>
    rcases List.mem_cons.mp hroot with rfl | hroot
    · exact live_global
    · obtain ⟨slot, hslot, rfl⟩ := List.mem_filterMap.mp hroot
      exact live_of_root (hsub hslot)
  | edge hreach hheld ih =>
    exact live_iff_reach.mpr (.edge (live_iff_reach.mp (ih (live_iff_reach.mpr hreach))) hheld)

theorem Settled.mono {more : List Slot} (h : s.Settled roots) (hsub : roots ⊆ more) :
    s.Settled more :=
  fun ref href => live_mono hsub (h ref href)

theorem settled_initial : Store.initial.Settled roots := by
  have hleft : Store.initial.collect [] = Store.initial := rfl
  have hsettled : (Store.initial.collect []).Settled [] := settled_collect
  rw [hleft] at hsettled
  exact hsettled.mono (List.nil_subset roots)

/-- A collection leaves a settled store as it is. -/
theorem Settled.collect_eq (h : s.Settled roots) (hs : s.Interned) : s.collect roots = s := by
  have hkept : ∀ kind, (s.table kind).retain (fun id => decide (s.Live roots id.ref)) =
      s.table kind :=
    fun kind => Table.retain_eq_self fun id hid => decide_eq_true (h id.ref ((has_ref id).mpr hid))
  have hpruned : (s.table .context).map (s.pruned roots) = s.table .context := by
    refine Table.map_eq_self fun c context hcontext => ?_
    have hget : s.get? c = some context := hcontext
    -- what a table names is there, and so it is live
    have hhandles : ∀ entry ∈ context.handles, s.Live roots (.node entry.2) := fun entry hentry =>
      h _ (has_of_handleAt (hs.handle (handlesIn_eq hget ▸ hentry)))
    have hwrappers : ∀ entry ∈ context.wrappers, s.Live roots (.value entry.2) :=
      fun entry hentry => h _ (has_of_wrappedAt (hs.wrapper (wrappersIn_eq hget ▸ hentry)))
    rw [pruned, List.filter_eq_self.mpr fun entry hentry => decide_eq_true (hhandles entry hentry),
      List.filter_eq_self.mpr fun entry hentry => decide_eq_true (hwrappers entry hentry)]
  let kept (kind : Kind) : Table kind (Object kind) :=
    (s.table kind).retain fun id => decide (s.Live roots id.ref)
  calc s.collect roots
    _ = s.retain fun ref => decide (s.Live roots ref) := collect_eq_retain
    _ = { s with
          values := kept .value, nodes := kept .node, functions := kept .function
          modules := kept .module, contexts := (kept .context).map (s.pruned roots)
          layouts := kept .layout, engines := kept .engine, emitters := kept .emitter
          diagnostics := kept .diagnostic } := rfl
    _ = { s with contexts := (s.table .context).map (s.pruned roots) } := by
      simp only [kept, hkept]
      rfl
    _ = s := congrArg (fun contexts => ({ s with contexts } : Store)) hpruned

/-! ## Holding more -/

/-- What was there stays and holds what it held, and besides only what is described. -/
structure HoldsMore (more : Slot → Prop) (s t : Store) : Prop where
  kept : ∀ {kind : Kind} (id : Id kind) {o : Object kind}, s.get? id = some o →
    ∃ p, t.get? id = some p ∧ kind.slots o ⊆ kind.slots p ∧
      ∀ slot ∈ kind.slots p, slot ∈ kind.slots o ∨ more slot

namespace HoldsMore

theorem refl (s : Store) : s.HoldsMore more s where
  kept _ o ho := ⟨o, ho, List.Subset.refl _, fun _ h => .inl h⟩

theorem trans (hst : s.HoldsMore more t) (htu : t.HoldsMore more u) : s.HoldsMore more u where
  kept id o ho := by
    obtain ⟨p, hp, hsub, hmore⟩ := hst.kept id ho
    obtain ⟨q, hq, hsub', hmore'⟩ := htu.kept id hp
    refine ⟨q, hq, List.Subset.trans hsub hsub', fun slot hslot => ?_⟩
    rcases hmore' slot hslot with h | h
    · exact hmore slot h
    · exact .inr h

theorem weaken {more' : Slot → Prop} (h : s.HoldsMore more t)
    (himp : ∀ slot, more slot → more' slot) : s.HoldsMore more' t where
  kept id o ho := by
    obtain ⟨p, hp, hsub, hmore⟩ := h.kept id ho
    exact ⟨p, hp, hsub, fun slot hslot => (hmore slot hslot).imp_right (himp slot)⟩

theorem has (h : s.HoldsMore more t) {ref : Ref} (href : s.Has ref) : t.Has ref := by
  obtain ⟨kind, id, rfl⟩ := exists_id ref
  obtain ⟨o, ho⟩ := Option.isSome_iff_exists.mp ((has_ref id).mp href)
  obtain ⟨p, hp, _⟩ := h.kept id ho
  exact (has_ref id).mpr (by rw [hp]; rfl)

/-- A change of an object that has come since does not matter. -/
theorem modify (h : s.HoldsMore more t) {id : Id kind} {f : Object kind → Object kind}
    (hf : s.Has id.ref → ∀ o, t.get? id = some o → kind.slots o ⊆ kind.slots (f o) ∧
      ∀ slot ∈ kind.slots (f o), slot ∈ kind.slots o ∨ more slot) :
    s.HoldsMore more (t.modify id f) where
  kept {k} i o ho := by
    obtain ⟨p, hp, hsub, hmore⟩ := h.kept i ho
    by_cases hk : k = kind
    · subst hk
      by_cases hi : i = id
      · subst hi
        obtain ⟨hsub', hmore'⟩ := hf ((has_ref i).mpr (by rw [ho]; rfl)) p hp
        refine ⟨f p, by rw [get?_modify_self, hp]; rfl, List.Subset.trans hsub hsub',
          fun slot hslot => ?_⟩
        rcases hmore' slot hslot with h | h
        · exact hmore slot h
        · exact .inr h
      · exact ⟨p, by rwa [get?_modify_other _ _ hi], hsub, hmore⟩
    · exact ⟨p, by rwa [get?_modify_kind _ _ _ _ hk], hsub, hmore⟩

theorem push (h : s.HoldsMore more t) (object : Object kind) :
    s.HoldsMore more (t.push kind object) where
  kept {k} i o ho := by
    obtain ⟨p, hp, hkept⟩ := h.kept i ho
    refine ⟨p, ?_, hkept⟩
    by_cases hk : k = kind
    · subst hk
      rwa [get?_push_of_has i object ((has_ref i).mpr (by rw [hp]; rfl))]
    · rwa [get?_push_kind _ _ _ hk]

theorem live (h : s.HoldsMore more t) {ref : Ref} (hlive : s.Live roots ref) :
    t.Live roots ref := by
  induction live_iff_reach.mp hlive with
  | root hroot => exact live_iff_reach.mpr (.root hroot)
  | @edge holder held hreach hheld ih =>
    obtain ⟨kind, id, rfl⟩ := exists_id holder
    obtain ⟨o, ho, hslot⟩ := mem_holds_ref.mp hheld
    obtain ⟨p, hp, hsub, _⟩ := h.kept id ho
    exact live_of_held id hp (ih (live_iff_reach.mpr hreach)) (hsub hslot)

/-- Contexts hold nothing. -/
theorem modify_context (h : s.HoldsMore more t) {c : ContextId} {f : Context → Context} :
    s.HoldsMore more (t.modify c f) :=
  h.modify fun _ _ _ => ⟨List.nil_subset _, fun _ hslot => nomatch hslot⟩

end HoldsMore

/-! ## Objects beside a store -/

/-- Objects have come beside those of a store: what was there holds little more, no context has
come, and of what was there contexts know the handles and wrappers that they knew. -/
structure Adjoins (more : Slot → Prop) (s t : Store) : Prop extends s.HoldsMore more t where
  context : ∀ c, t.Has (.context c) → s.Has (.context c)
  handles : ∀ c, (t.handlesIn c).filter (fun entry => s.Has (.node entry.2)) = s.handlesIn c
  wrappers : ∀ c, (t.wrappersIn c).filter (fun entry => s.Has (.value entry.2)) = s.wrappersIn c

theorem handlesIn_of_get?_eq {c : ContextId} (h : t.get? c = s.get? c) :
    t.handlesIn c = s.handlesIn c := by
  rw [handlesIn, h, handlesIn]

theorem wrappersIn_of_get?_eq {c : ContextId} (h : t.get? c = s.get? c) :
    t.wrappersIn c = s.wrappersIn c := by
  rw [wrappersIn, h, wrappersIn]

namespace Adjoins

theorem refl (hs : s.Interned) : s.Adjoins more s where
  toHoldsMore := .refl s
  context _ hc := hc
  handles _ := List.filter_eq_self.mpr fun _ hentry =>
    decide_eq_true (has_of_handleAt (hs.handle hentry))
  wrappers _ := List.filter_eq_self.mpr fun _ hentry =>
    decide_eq_true (has_of_wrappedAt (hs.wrapper hentry))

variable (h : s.Adjoins more t)

include h

theorem weaken {more' : Slot → Prop} (himp : ∀ slot, more slot → more' slot) :
    s.Adjoins more' t :=
  { h with toHoldsMore := h.toHoldsMore.weaken himp }

theorem modify (hk : kind ≠ .context) {id : Id kind} {f : Object kind → Object kind}
    (hf : s.Has id.ref → ∀ o, t.get? id = some o → kind.slots o ⊆ kind.slots (f o) ∧
      ∀ slot ∈ kind.slots (f o), slot ∈ kind.slots o ∨ more slot) :
    s.Adjoins more (t.modify id f) where
  toHoldsMore := h.toHoldsMore.modify hf
  context c hc := h.context c (has_modify.mp hc)
  handles c := by
    rw [handlesIn_of_get?_eq (get?_modify_kind _ _ _ _ hk.symm)]
    exact h.handles c
  wrappers c := by
    rw [wrappersIn_of_get?_eq (get?_modify_kind _ _ _ _ hk.symm)]
    exact h.wrappers c

/-- An object that has come since may change in any way. -/
theorem modify_new (hk : kind ≠ .context) {id : Id kind} {f : Object kind → Object kind}
    (hnew : ¬ s.Has id.ref) : s.Adjoins more (t.modify id f) :=
  h.modify hk fun hhas => absurd hhas hnew

theorem push (hk : kind ≠ .context) (object : Object kind) :
    s.Adjoins more (t.push kind object) where
  toHoldsMore := h.toHoldsMore.push object
  context c hc := by
    rcases has_push.mp hc with heq | hold
    · cases kind <;> cases heq
      exact absurd rfl hk
    · exact h.context c hold
  handles c := by
    rw [handlesIn_of_get?_eq (get?_push_kind _ _ _ hk.symm)]
    exact h.handles c
  wrappers c := by
    rw [wrappersIn_of_get?_eq (get?_push_kind _ _ _ hk.symm)]
    exact h.wrappers c

/-- What comes next was not there. -/
theorem not_has_nextId : ¬ s.Has (t.nextId kind).ref := fun hhas =>
  @ne_nextId kind t _ (h.toHoldsMore.has hhas) rfl

theorem addHandle {c : ContextId} (hc : t.Has (.context c)) (v : ValueId) (handle : Node) :
    s.Adjoins more (t.addHandle c v handle) := by
  have hpush : s.Adjoins more (t.push .node handle) := h.push (by decide) _
  constructor
  · exact hpush.toHoldsMore.modify_context
  · intro c' hc'
    rw [Store.addHandle, has_modify] at hc'
    exact hpush.context c' hc'
  · intro c'
    rw [handlesIn_addHandle hc]
    split
    · -- the entry that has come names the new handle
      have hnew : ¬ s.Has (.node (t.nextId .node)) := @not_has_nextId .node s t more h
      rw [List.filter_append, h.handles]
      simp [hnew]
    · exact h.handles c'
  · intro c'
    rw [wrappersIn_addHandle]
    exact h.wrappers c'

theorem addWrapper {c : ContextId} (hc : t.Has (.context c)) (n : NodeId) :
    s.Adjoins more (t.addWrapper c n) := by
  have hpush : s.Adjoins more (t.push .value (newWrapper n (some c))) := h.push (by decide) _
  constructor
  · exact hpush.toHoldsMore.modify_context
  · intro c' hc'
    rw [Store.addWrapper, has_modify] at hc'
    exact hpush.context c' hc'
  · intro c'
    rw [handlesIn_addWrapper]
    exact h.handles c'
  · intro c'
    rw [wrappersIn_addWrapper hc]
    split
    · have hnew : ¬ s.Has (.value (t.nextId .value)) := @not_has_nextId .value s t more h
      rw [List.filter_append, h.wrappers]
      simp [hnew]
    · exact h.wrappers c'

/-! ## What is kept alive -/

/-- Of what has come, only that is live which something that was there has come to hold. -/
theorem live_iff (hs : s.Closed) (ht : t.Closed) (hsettled : s.Settled roots)
    (hroots : ∀ slot ∈ roots, s.HasIn slot) {extra : Ref → Prop}
    (hmore : ∀ ref, more (some ref) → (∃ c, ref = .context c) ∨ extra ref)
    (hextra : ∀ ref held, extra ref → held ∈ t.holds ref → s.Has held ∨ extra held)
    (hlive : ∀ ref, extra ref → t.Live roots ref) (ref : Ref) :
    t.Live roots ref ↔ s.Has ref ∨ extra ref := by
  constructor
  · intro href
    induction live_iff_reach.mp href with
    | root hroot =>
      rcases List.mem_cons.mp hroot with rfl | hroot
      · exact .inl hs.global
      · obtain ⟨slot, hslot, rfl⟩ := List.mem_filterMap.mp hroot
        exact .inl (hroots _ hslot _ rfl)
    | @edge holder held hreach hheld ih =>
      rcases ih (live_iff_reach.mpr hreach) with hhas | hholder
      · obtain ⟨kind, id, rfl⟩ := exists_id holder
        obtain ⟨o, ho⟩ := Option.isSome_iff_exists.mp ((has_ref id).mp hhas)
        obtain ⟨p, hp, _, hslots⟩ := h.kept id ho
        obtain ⟨p', hp', hslot⟩ := mem_holds_ref.mp hheld
        obtain rfl := Option.some_inj.mp (hp.symm.trans hp')
        rcases hslots _ hslot with hold | hnew
        · exact .inl (hs.held id ho _ hold _ rfl)
        · -- a context that has come to be held was there, since none has come
          rcases hmore held hnew with ⟨c, rfl⟩ | hheld
          · exact .inl (h.context c (ht.held id hp _ hslot _ rfl))
          · exact .inr hheld
      · exact hextra holder held hholder hheld
  · rintro (hhas | href)
    · exact h.toHoldsMore.live (hsettled ref hhas)
    · exact hlive ref href

/-- If of the contexts and handles those are live that were there, contexts know the handles that
they knew. -/
theorem handlesIn_collect (hcontext : ∀ c, t.Live roots (.context c) ↔ s.Has (.context c))
    (hnode : ∀ n, t.Live roots (.node n) ↔ s.Has (.node n)) (c : ContextId) :
    (t.collect roots).handlesIn c = s.handlesIn c := by
  rw [Store.handlesIn_collect]
  by_cases hc : s.Has (.context c)
  · rw [if_pos ((hcontext c).mpr hc), ← h.handles]
    simp only [hnode]
  · rw [if_neg fun hlive => hc ((hcontext c).mp hlive), handlesIn]
    rw [Option.not_isSome_iff_eq_none.mp hc]
    rfl

/-- If of the contexts and wrappers those are live that were there, contexts know the wrappers that
they knew. -/
theorem wrappersIn_collect (hcontext : ∀ c, t.Live roots (.context c) ↔ s.Has (.context c))
    (hwrapper : ∀ w n, t.wrappedAt w = some n → (t.Live roots (.value w) ↔ s.Has (.value w)))
    (ht : t.Interned) (c : ContextId) : (t.collect roots).wrappersIn c = s.wrappersIn c := by
  rw [Store.wrappersIn_collect]
  by_cases hc : s.Has (.context c)
  · rw [if_pos ((hcontext c).mpr hc), ← h.wrappers]
    refine List.filter_congr fun ⟨n, w⟩ hentry => ?_
    simp only [hwrapper w n (ht.wrapper hentry)]
  · rw [if_neg fun hlive => hc ((hcontext c).mp hlive), wrappersIn]
    rw [Option.not_isSome_iff_eq_none.mp hc]
    rfl

end Adjoins

theorem instructionsOf_collect (b : ValueId) : (s.collect roots).instructionsOf b =
    if s.Live roots (.value b) then s.instructionsOf b else [] :=
  asked_collect (fun o : Option (Object .value) => (o.map Value.instructions).getD []) (by decide) b

/-- A value is looked up with the same wrapper if its context knows the same: a value whose context
has not been fixed yet has no handle. -/
theorem Interned.wrapperFor?_congr (hs : s.Interned) {v : ValueId} (hv : s.Has (.value v))
    (hcontext : ∀ c, s.contextAt v = some c → t.contextAt v = some c)
    (hhandles : ∀ c, t.handlesIn c = s.handlesIn c)
    (hwrappers : ∀ c, t.wrappersIn c = s.wrappersIn c) : t.wrapperFor? v = s.wrapperFor? v := by
  cases hc : s.contextAt v with
  | some c =>
    rw [wrapperFor?, handleFor?, hcontext c hc, wrapperFor?, handleFor?, hc]
    simp only [Option.bind_some, hhandles, hwrappers]
  | none =>
    have hnone : ∀ c, (s.handlesIn c).lookup v = none := by
      intro c
      refine lookup_eq_none_iff.mpr fun hmem => ?_
      obtain ⟨⟨v', n⟩, hentry, rfl⟩ := List.mem_map.mp hmem
      obtain ⟨c', hc', _⟩ := hs.registered (hs.handle hentry) hv
      cases hc.symm.trans hc'
    rw [wrapperFor?, handleFor?, wrapperFor?, hc]
    cases t.contextAt v with
    | none => rfl
    | some c =>
      rw [Option.bind_some, Option.bind_some, hhandles, hnone]
      rfl

end Store

end SsaDebugInfo
