import SsaDebugInfo.Proofs.Store.Aspects
import SsaDebugInfo.Proofs.Store.Change

/-!
# Handles and wrappers are interned

The handle of a value stands in the table of the value's context, and a wrapper found in a table
wraps the node that it is found under. A store where this holds is `Store.Interned`.

- `Interned.of_sameTables`: what does not touch handles, wrappers and fixed contexts keeps it.
- `Interned.addHandle`, `Interned.addWrapper`: a new entry keeps it.
- `Interned.collect`: collection keeps it, since the value and the entry of a handle go with it.
- `lookup_eq_some_iff`: in a table a name is looked up as what it stands for.

The clause that all others lean on is `Interned.registered`. It speaks only of values that are still
there, since a handle may outlive its value; and `Interned.given` says that the value's identity has
been given out, so that no other value comes under it and has a handle that no table knows.
-/

namespace SsaDebugInfo

/-- In a list without repeated keys, what a key is looked up as is what stands under it. -/
theorem lookup_eq_some_iff {α β : Type} [BEq α] [LawfulBEq α] {l : List (α × β)}
    (hl : (l.map Prod.fst).Nodup) {a : α} {b : β} : l.lookup a = some b ↔ (a, b) ∈ l := by
  induction l with
  | nil => simp
  | cons entry rest ih =>
    obtain ⟨key, value⟩ := entry
    rw [List.map_cons, List.nodup_cons] at hl
    rw [List.lookup_cons, List.mem_cons]
    by_cases hkey : a = key
    · subst hkey
      have hnot : (a, b) ∉ rest := fun h => hl.1 (List.mem_map.mpr ⟨(a, b), h, rfl⟩)
      simp [hnot, eq_comm]
    · rw [beq_false_of_ne hkey, ih hl.2]
      simp [hkey]

theorem lookup_eq_none_iff {α β : Type} [BEq α] [LawfulBEq α] {l : List (α × β)} {a : α} :
    l.lookup a = none ↔ a ∉ l.map Prod.fst := by
  induction l with
  | nil => simp
  | cons entry rest ih =>
    obtain ⟨key, value⟩ := entry
    rw [List.lookup_cons, List.map_cons, List.mem_cons, not_or]
    by_cases hkey : a = key
    · simp [hkey]
    · rw [beq_false_of_ne hkey, ih]
      simp [hkey]

/-- An entry under a key that is new leaves a list without repeated keys. -/
theorem nodup_keys_append {α β : Type} {l : List (α × β)} (hl : (l.map Prod.fst).Nodup) {a : α}
    (b : β) (ha : a ∉ l.map Prod.fst) : ((l ++ [(a, b)]).map Prod.fst).Nodup := by
  rw [List.map_append, List.nodup_append]
  refine ⟨hl, List.pairwise_singleton _ _, ?_⟩
  rintro key hkey _ hkey' rfl
  obtain rfl : key = a := by simpa using hkey'
  exact ha hkey

namespace Store

variable {kind : Kind} {s t u : Store} {roots : List Slot}

/-! ## What tables are about -/

/-- The node that a wrapper holds. -/
def wrappedAt (s : Store) (w : ValueId) : Option NodeId :=
  (s.get? w).bind (·.wrapped?)

/-- The value that a handle was made for. -/
def handleAt (s : Store) (h : NodeId) : Option ValueId :=
  (s.get? h).bind (·.handleOf?)

/-- The context of a value, once it is fixed. -/
def contextAt (s : Store) (v : ValueId) : Option ContextId :=
  (s.get? v).bind (·.context)

/-- The handles that a context knows. -/
def handlesIn (s : Store) (c : ContextId) : List (ValueId × NodeId) :=
  ((s.get? c).map (·.handles)).getD []

/-- The wrappers that a context knows. -/
def wrappersIn (s : Store) (c : ContextId) : List (NodeId × ValueId) :=
  ((s.get? c).map (·.wrappers)).getD []

/-- A live handle of a live value stands in the table of the value's context, and the tables tell
the truth, each name standing there once. -/
structure Interned (s : Store) : Prop where
  given : ∀ {h v}, s.handleAt h = some v → v.index < s.values.size
  registered : ∀ {h v}, s.handleAt h = some v → s.Has (.value v) →
    ∃ c, s.contextAt v = some c ∧ (v, h) ∈ s.handlesIn c
  handle : ∀ {c v h}, (v, h) ∈ s.handlesIn c → s.handleAt h = some v
  wrapper : ∀ {c h w}, (h, w) ∈ s.wrappersIn c → s.wrappedAt w = some h
  handleOnce : ∀ c, ((s.handlesIn c).map Prod.fst).Nodup
  wrapperOnce : ∀ c, ((s.wrappersIn c).map Prod.fst).Nodup

theorem interned_initial : Store.initial.Interned := by
  have hhandle : ∀ h, Store.initial.handleAt h = none := fun h => by
    rw [handleAt, get?_initial h (by decide), Option.bind_none]
  have hhandles : ∀ c, Store.initial.handlesIn c = [] := fun c => by
    unfold handlesIn
    cases hc : Store.initial.get? c with
    | none => rfl
    | some context => rw [eq_of_get?_initial hc]; rfl
  have hwrappers : ∀ c, Store.initial.wrappersIn c = [] := fun c => by
    unfold wrappersIn
    cases hc : Store.initial.get? c with
    | none => rfl
    | some context => rw [eq_of_get?_initial hc]; rfl
  constructor
  · intro h v hv
    rw [hhandle] at hv
    cases hv
  · intro h v hv
    rw [hhandle] at hv
    cases hv
  · intro c v h hmem
    rw [hhandles] at hmem
    cases hmem
  · intro c h w hmem
    rw [hwrappers] at hmem
    cases hmem
  · intro c
    rw [hhandles]
    exact List.nodup_nil
  · intro c
    rw [hwrappers]
    exact List.nodup_nil

/-! ## What leaves tables alone -/

/-- An object before and after is a handle of the same value, a wrapper of the same node, a context
with the same tables; the context of a value does not change once it is fixed. -/
def SameEntries : ObjectRelation
  | .value, v, w => w.bind Value.wrapped? = v.bind Value.wrapped? ∧
      ∀ c, v.bind Value.context = some c → w.bind Value.context = some c
  | .node, m, n => n.bind Node.handleOf? = m.bind Node.handleOf?
  | .context, a, b => (b.map Context.handles).getD [] = (a.map Context.handles).getD [] ∧
      (b.map Context.wrappers).getD [] = (a.map Context.wrappers).getD []
  | _, _, _ => True

theorem SameEntries.refl (kind : Kind) (o : Option (Object kind)) : SameEntries kind o o := by
  cases kind with
  | value => exact ⟨rfl, fun _ h => h⟩
  | node => exact rfl
  | context => exact ⟨rfl, rfl⟩
  | _ => trivial

theorem SameEntries.trans (kind : Kind) (o p q : Option (Object kind))
    (hop : SameEntries kind o p) (hpq : SameEntries kind p q) : SameEntries kind o q := by
  cases kind with
  | value => exact ⟨hpq.1.trans hop.1, fun c h => hpq.2 c (hop.2 c h)⟩
  | node => exact Eq.trans hpq hop
  | context => exact ⟨hpq.1.trans hop.1, hpq.2.trans hop.2⟩
  | _ => trivial

/-- A change that neither makes nor loses handles, wrappers and entries of tables. -/
structure SameTables (s t : Store) : Prop extends s.Extends t where
  entries : Pointwise SameEntries s t

namespace SameTables

theorem refl (s : Store) : s.SameTables s :=
  ⟨.refl s, Pointwise.of_get?_eq SameEntries.refl fun _ => rfl⟩

theorem trans (hst : s.SameTables t) (htu : t.SameTables u) : s.SameTables u :=
  ⟨hst.toExtends.trans htu.toExtends, Pointwise.trans SameEntries.trans hst.entries htu.entries⟩

variable (h : s.SameTables t)

include h

theorem wrappedAt (w : ValueId) : t.wrappedAt w = s.wrappedAt w := (h.entries _ w).1

theorem contextAt {v : ValueId} {c : ContextId} (hv : s.contextAt v = some c) :
    t.contextAt v = some c := (h.entries _ v).2 c hv

theorem handleAt (n : NodeId) : t.handleAt n = s.handleAt n := h.entries _ n

theorem handlesIn (c : ContextId) : t.handlesIn c = s.handlesIn c := (h.entries _ c).1

theorem wrappersIn (c : ContextId) : t.wrappersIn c = s.wrappersIn c := (h.entries _ c).2

end SameTables

/-- What leaves tables alone keeps a store interned. -/
theorem Interned.of_sameTables (hs : s.Interned) (h : s.SameTables t) : t.Interned where
  given hn := by
    rw [h.handleAt] at hn
    exact Nat.lt_of_lt_of_le (hs.given hn) (h.size .value)
  registered {n v} hn hv := by
    rw [h.handleAt] at hn
    obtain ⟨c, hc, hmem⟩ := hs.registered hn (h.has_value_of_lt hv (hs.given hn))
    exact ⟨c, h.contextAt hc, by rwa [h.handlesIn]⟩
  handle hmem := by
    rw [h.handlesIn] at hmem
    rw [h.handleAt]
    exact hs.handle hmem
  wrapper hmem := by
    rw [h.wrappersIn] at hmem
    rw [h.wrappedAt]
    exact hs.wrapper hmem
  handleOnce c := by
    rw [h.handlesIn]
    exact hs.handleOnce c
  wrapperOnce c := by
    rw [h.wrappersIn]
    exact hs.wrapperOnce c

/-! ## What only adds to tables -/

/-- A change after which handles and wrappers are what they were and stand in the tables that they
stood in. -/
structure MoreTables (s t : Store) : Prop extends s.Extends t where
  wrapped : ∀ {w}, s.Has (.value w) → t.wrappedAt w = s.wrappedAt w
  handled : ∀ {h}, s.Has (.node h) → t.handleAt h = s.handleAt h
  contextAt : ∀ {v c}, s.contextAt v = some c → t.contextAt v = some c
  handlesIn : ∀ c, s.handlesIn c ⊆ t.handlesIn c
  wrappersIn : ∀ c, s.wrappersIn c ⊆ t.wrappersIn c

theorem has_of_wrappedAt {w : ValueId} {h : NodeId} (hw : s.wrappedAt w = some h) :
    s.Has (.value w) := by
  obtain ⟨o, ho, _⟩ := Option.bind_eq_some_iff.mp hw
  exact has_value_iff.mpr ⟨o, ho⟩

theorem has_of_handleAt {h : NodeId} {v : ValueId} (hh : s.handleAt h = some v) :
    s.Has (.node h) := by
  obtain ⟨n, hn, _⟩ := Option.bind_eq_some_iff.mp hh
  exact (has_ref h).mpr (by rw [hn]; rfl)

theorem MoreTables.wrappedAt (h : s.MoreTables t) {w : ValueId} {n : NodeId}
    (hw : s.wrappedAt w = some n) : t.wrappedAt w = some n :=
  (h.wrapped (has_of_wrappedAt hw)).trans hw

theorem MoreTables.handleAt (h : s.MoreTables t) {n : NodeId} {v : ValueId}
    (hn : s.handleAt n = some v) : t.handleAt n = some v :=
  (h.handled (has_of_handleAt hn)).trans hn

theorem SameTables.more (h : s.SameTables t) : s.MoreTables t where
  toExtends := h.toExtends
  wrapped _ := h.wrappedAt _
  handled _ := h.handleAt _
  contextAt := h.contextAt
  handlesIn c := by rw [h.handlesIn]; exact List.Subset.refl _
  wrappersIn c := by rw [h.wrappersIn]; exact List.Subset.refl _

theorem MoreTables.refl (s : Store) : s.MoreTables s := (SameTables.refl s).more

theorem MoreTables.trans (hst : s.MoreTables t) (htu : t.MoreTables u) : s.MoreTables u where
  toExtends := hst.toExtends.trans htu.toExtends
  wrapped h := (htu.wrapped (hst.has h)).trans (hst.wrapped h)
  handled h := (htu.handled (hst.has h)).trans (hst.handled h)
  contextAt h := htu.contextAt (hst.contextAt h)
  handlesIn c := List.Subset.trans (hst.handlesIn c) (htu.handlesIn c)
  wrappersIn c := List.Subset.trans (hst.wrappersIn c) (htu.wrappersIn c)

/-- The store with a new handle of a value, which a context knows. -/
def addHandle (s : Store) (c : ContextId) (v : ValueId) (handle : Node) : Store :=
  (s.push .node handle).modify c fun context =>
    { context with handles := context.handles ++ [(v, s.nextId .node)] }

/-- The store with a new wrapper of a node, which a context knows. -/
def addWrapper (s : Store) (c : ContextId) (h : NodeId) : Store :=
  (s.push .value { type := .metadata, shape := .wrapper h, context := some c }).modify c
    fun context => { context with wrappers := context.wrappers ++ [(h, s.nextId .value)] }

section AddHandle

variable {c : ContextId} {v : ValueId} {handle : Node}

theorem get?_addHandle (id : Id kind) (hn : kind ≠ .node) (hc : kind ≠ .context) :
    (s.addHandle c v handle).get? id = s.get? id := by
  rw [addHandle, get?_modify_kind _ _ _ _ hc, get?_push_kind _ _ _ hn]

theorem handleAt_addHandle (h : NodeId) :
    (s.addHandle c v handle).handleAt h =
      if h = s.nextId .node then handle.handleOf? else s.handleAt h := by
  rw [handleAt, addHandle, get?_modify_kind _ _ _ _ (by decide), get?_push]
  split
  · rfl
  · rfl

theorem get?_addHandle_context (c' : ContextId) :
    (s.addHandle c v handle).get? c' = if c' = c then (s.get? c').map fun context =>
      { context with handles := context.handles ++ [(v, s.nextId .node)] } else s.get? c' := by
  rw [addHandle, get?_modify, get?_push_kind _ _ _ (by decide)]

theorem handlesIn_addHandle (hc : s.Has (.context c)) (c' : ContextId) :
    (s.addHandle c v handle).handlesIn c' =
      if c' = c then s.handlesIn c' ++ [(v, s.nextId .node)] else s.handlesIn c' := by
  rw [handlesIn, get?_addHandle_context]
  split
  · next h =>
    subst h
    obtain ⟨context, hcontext⟩ := Option.isSome_iff_exists.mp hc
    rw [handlesIn, hcontext]
    rfl
  · rfl

theorem wrappersIn_addHandle (c' : ContextId) :
    (s.addHandle c v handle).wrappersIn c' = s.wrappersIn c' := by
  rw [wrappersIn, get?_addHandle_context, wrappersIn]
  split
  · cases s.get? c' with
    | none => rfl
    | some context => rfl
  · rfl

theorem wrappedAt_addHandle (w : ValueId) :
    (s.addHandle c v handle).wrappedAt w = s.wrappedAt w := by
  rw [wrappedAt, get?_addHandle w (by decide) (by decide), wrappedAt]

theorem contextAt_addHandle (v' : ValueId) :
    (s.addHandle c v handle).contextAt v' = s.contextAt v' := by
  rw [contextAt, get?_addHandle v' (by decide) (by decide), contextAt]

theorem moreTables_addHandle (hc : s.Has (.context c)) : s.MoreTables (s.addHandle c v handle) where
  toExtends := (Extends.push .node handle).trans (Extends.modify c _)
  wrapped _ := wrappedAt_addHandle _
  contextAt h := by rwa [contextAt_addHandle]
  handled {h} hh := by rw [handleAt_addHandle, if_neg (ne_nextId hh)]
  handlesIn c' := by
    rw [handlesIn_addHandle hc]
    split
    · exact List.subset_append_left _ _
    · exact List.Subset.refl _
  wrappersIn c' := by rw [wrappersIn_addHandle]; exact List.Subset.refl _

/-- A handle made for a value that has none, in the table of the value's context, keeps a store
interned. -/
theorem Interned.addHandle (hs : s.Interned) (hv : s.Has (.value v)) (hc : s.Has (.context c))
    (hcontext : s.contextAt v = some c) (hnone : v ∉ (s.handlesIn c).map Prod.fst)
    (hhandle : handle.handleOf? = some v) : (s.addHandle c v handle).Interned where
  given {h v'} hh := by
    have hsize : s.values.size ≤ (s.addHandle c v handle).values.size :=
      (moreTables_addHandle hc).size .value
    rw [handleAt_addHandle] at hh
    split at hh
    · rw [hhandle] at hh
      cases hh
      obtain ⟨o, ho⟩ := has_value_iff.mp hv
      exact Nat.lt_of_lt_of_le (index_lt_of_get? ho) hsize
    · exact Nat.lt_of_lt_of_le (hs.given hh) hsize
  registered {h v'} hh hv' := by
    rw [handleAt_addHandle] at hh
    split at hh
    · next heq =>
      -- the new handle stands at the end of the table of its value's context
      rw [hhandle] at hh
      cases hh
      refine ⟨c, by rwa [contextAt_addHandle], ?_⟩
      rw [handlesIn_addHandle hc, if_pos rfl, heq]
      exact List.mem_append_right _ List.mem_cons_self
    · -- an older handle stands where it stood
      have hv' : s.Has (.value v') := by
        rwa [Has, get?_addHandle v' (by decide) (by decide)] at hv'
      obtain ⟨c', hc', hmem⟩ := hs.registered hh hv'
      refine ⟨c', by rwa [contextAt_addHandle], ?_⟩
      exact (moreTables_addHandle hc).handlesIn c' hmem
  handle {c' v' h} hmem := by
    rw [handlesIn_addHandle hc] at hmem
    split at hmem
    · rcases List.mem_append.mp hmem with hmem | hmem
      · exact (moreTables_addHandle hc).handleAt (hs.handle hmem)
      · obtain ⟨rfl, rfl⟩ := Prod.mk.inj (List.mem_singleton.mp hmem)
        rw [handleAt_addHandle, if_pos rfl, hhandle]
    · exact (moreTables_addHandle hc).handleAt (hs.handle hmem)
  wrapper hmem := by
    rw [wrappersIn_addHandle] at hmem
    rw [wrappedAt_addHandle]
    exact hs.wrapper hmem
  -- the value had no entry there, so that the new one is its only one
  handleOnce c' := by
    rw [handlesIn_addHandle hc]
    split
    · next heq =>
      subst heq
      exact nodup_keys_append (hs.handleOnce _) _ hnone
    · exact hs.handleOnce c'
  wrapperOnce c' := by
    rw [wrappersIn_addHandle]
    exact hs.wrapperOnce c'

end AddHandle

section AddWrapper

variable {c : ContextId} {h : NodeId}

theorem get?_addWrapper (id : Id kind) (hv : kind ≠ .value) (hc : kind ≠ .context) :
    (s.addWrapper c h).get? id = s.get? id := by
  rw [addWrapper, get?_modify_kind _ _ _ _ hc, get?_push_kind _ _ _ hv]

theorem get?_addWrapper_value (w : ValueId) :
    (s.addWrapper c h).get? w =
      if w = s.nextId .value then
        some { type := .metadata, shape := .wrapper h, context := some c }
      else s.get? w := by
  rw [addWrapper, get?_modify_kind _ _ _ _ (by decide), get?_push]

theorem get?_addWrapper_context (c' : ContextId) :
    (s.addWrapper c h).get? c' = if c' = c then (s.get? c').map fun context =>
      { context with wrappers := context.wrappers ++ [(h, s.nextId .value)] } else s.get? c' := by
  rw [addWrapper, get?_modify, get?_push_kind _ _ _ (by decide)]

theorem handleAt_addWrapper (n : NodeId) : (s.addWrapper c h).handleAt n = s.handleAt n := by
  rw [handleAt, get?_addWrapper n (by decide) (by decide), handleAt]

theorem wrappedAt_addWrapper (w : ValueId) :
    (s.addWrapper c h).wrappedAt w = if w = s.nextId .value then some h else s.wrappedAt w := by
  rw [wrappedAt, get?_addWrapper_value]
  split
  · rfl
  · rfl

theorem contextAt_addWrapper (v : ValueId) :
    (s.addWrapper c h).contextAt v = if v = s.nextId .value then some c else s.contextAt v := by
  rw [contextAt, get?_addWrapper_value]
  split
  · rfl
  · rfl

theorem handlesIn_addWrapper (c' : ContextId) :
    (s.addWrapper c h).handlesIn c' = s.handlesIn c' := by
  rw [handlesIn, get?_addWrapper_context, handlesIn]
  split
  · cases s.get? c' with
    | none => rfl
    | some context => rfl
  · rfl

theorem wrappersIn_addWrapper (hc : s.Has (.context c)) (c' : ContextId) :
    (s.addWrapper c h).wrappersIn c' =
      if c' = c then s.wrappersIn c' ++ [(h, s.nextId .value)] else s.wrappersIn c' := by
  rw [wrappersIn, get?_addWrapper_context]
  split
  · next heq =>
    subst heq
    obtain ⟨context, hcontext⟩ := Option.isSome_iff_exists.mp hc
    rw [wrappersIn, hcontext]
    rfl
  · rfl

theorem moreTables_addWrapper (hc : s.Has (.context c)) : s.MoreTables (s.addWrapper c h) where
  toExtends := (Extends.push .value _).trans (Extends.modify c _)
  wrapped {w} hw := by rw [wrappedAt_addWrapper, if_neg (ne_nextId hw)]
  contextAt {v c'} hv := by
    obtain ⟨o, ho, _⟩ := Option.bind_eq_some_iff.mp hv
    have hne : v ≠ s.nextId .value := ne_nextId (has_value_iff.mpr ⟨o, ho⟩)
    rwa [contextAt_addWrapper, if_neg hne]
  handled _ := handleAt_addWrapper _
  handlesIn c' := by rw [handlesIn_addWrapper]; exact List.Subset.refl _
  wrappersIn c' := by
    rw [wrappersIn_addWrapper hc]
    split
    · exact List.subset_append_left _ _
    · exact List.Subset.refl _

/-- A wrapper made for a node that has none in the context keeps a store interned. -/
theorem Interned.addWrapper (hs : s.Interned) (hc : s.Has (.context c))
    (hnone : h ∉ (s.wrappersIn c).map Prod.fst) : (s.addWrapper c h).Interned where
  given hn := by
    rw [handleAt_addWrapper] at hn
    exact Nat.lt_of_lt_of_le (hs.given hn) ((moreTables_addWrapper hc).size .value)
  registered {n v} hn hv := by
    have hmore : s.MoreTables (s.addWrapper c h) := moreTables_addWrapper hc
    rw [handleAt_addWrapper] at hn
    -- the new wrapper is a value too, but none that a handle was made for
    obtain ⟨c', hc', hmem⟩ := hs.registered hn (hmore.has_value_of_lt hv (hs.given hn))
    exact ⟨c', hmore.contextAt hc', hmore.handlesIn c' hmem⟩
  handle hmem := by
    rw [handlesIn_addWrapper] at hmem
    rw [handleAt_addWrapper]
    exact hs.handle hmem
  wrapper {c' n w} hmem := by
    rw [wrappersIn_addWrapper hc] at hmem
    split at hmem
    · rcases List.mem_append.mp hmem with hmem | hmem
      · exact (moreTables_addWrapper hc).wrappedAt (hs.wrapper hmem)
      · obtain ⟨rfl, rfl⟩ := Prod.mk.inj (List.mem_singleton.mp hmem)
        rw [wrappedAt_addWrapper, if_pos rfl]
    · exact (moreTables_addWrapper hc).wrappedAt (hs.wrapper hmem)
  handleOnce c' := by
    rw [handlesIn_addWrapper]
    exact hs.handleOnce c'
  wrapperOnce c' := by
    rw [wrappersIn_addWrapper hc]
    split
    · next heq =>
      subst heq
      exact nodup_keys_append (hs.wrapperOnce _) _ hnone
    · exact hs.wrapperOnce c'

end AddWrapper

/-! ## Collection -/

section Collect

theorem handleAt_collect (h : NodeId) :
    (s.collect roots).handleAt h = if s.Live roots (.node h) then s.handleAt h else none :=
  asked_collect (fun o : Option (Object .node) => o.bind Node.handleOf?) (by decide) h

theorem wrappedAt_collect (w : ValueId) :
    (s.collect roots).wrappedAt w = if s.Live roots (.value w) then s.wrappedAt w else none :=
  asked_collect (fun o : Option (Object .value) => o.bind Value.wrapped?) (by decide) w

theorem contextAt_collect (v : ValueId) :
    (s.collect roots).contextAt v = if s.Live roots (.value v) then s.contextAt v else none :=
  asked_collect (fun o : Option (Object .value) => o.bind Value.context) (by decide) v

theorem handlesIn_collect (c : ContextId) :
    (s.collect roots).handlesIn c = if s.Live roots (.context c) then
      (s.handlesIn c).filter fun entry => s.Live roots (.node entry.2) else [] := by
  rw [handlesIn, get?_collect_context]
  split
  · cases hc : s.get? c with
    | none => rw [handlesIn, hc]; rfl
    | some context => rw [handlesIn, hc]; rfl
  · rfl

theorem wrappersIn_collect (c : ContextId) :
    (s.collect roots).wrappersIn c = if s.Live roots (.context c) then
      (s.wrappersIn c).filter fun entry => s.Live roots (.value entry.2) else [] := by
  rw [wrappersIn, get?_collect_context]
  split
  · cases hc : s.get? c with
    | none => rw [wrappersIn, hc]; rfl
    | some context => rw [wrappersIn, hc]; rfl
  · rfl

/-- The context of a live value is live. -/
theorem live_of_contextAt {v : ValueId} {c : ContextId} (hlive : s.Live roots (.value v))
    (hc : s.contextAt v = some c) : s.Live roots (.context c) := by
  obtain ⟨o, ho, hcontext⟩ := Option.bind_eq_some_iff.mp hc
  exact (live_holdsOnly ho hlive).context c hcontext _ rfl

/-- The node of a live wrapper is live. -/
theorem live_of_wrappedAt {w : ValueId} {h : NodeId} (hlive : s.Live roots (.value w))
    (hw : s.wrappedAt w = some h) : s.Live roots (.node h) := by
  obtain ⟨o, ho, hwrapped⟩ := Option.bind_eq_some_iff.mp hw
  exact (live_holdsOnly ho hlive).wrapped h hwrapped _ rfl

/-- Collection keeps a store interned: a live value keeps its context, and with a handle its entry
stays. -/
theorem Interned.collect (hs : s.Interned) : (s.collect roots).Interned where
  given hn := by
    rw [handleAt_collect] at hn
    split at hn
    · rw [size_values_collect]
      exact hs.given hn
    · cases hn
  registered {h v} hn hv := by
    obtain ⟨hlive, hv⟩ := has_collect.mp hv
    rw [handleAt_collect] at hn
    split at hn
    · next hnode =>
      -- handle, value and context are all live, so that the entry is not pruned
      obtain ⟨c, hc, hmem⟩ := hs.registered hn hv
      refine ⟨c, by rwa [contextAt_collect, if_pos hlive], ?_⟩
      rw [handlesIn_collect, if_pos (live_of_contextAt hlive hc)]
      exact List.mem_filter.mpr ⟨hmem, decide_eq_true hnode⟩
    · cases hn
  handle hmem := by
    rw [handlesIn_collect] at hmem
    split at hmem
    · obtain ⟨hmem, hlive⟩ := List.mem_filter.mp hmem
      rw [handleAt_collect, if_pos (of_decide_eq_true hlive)]
      exact hs.handle hmem
    · cases hmem
  wrapper hmem := by
    rw [wrappersIn_collect] at hmem
    split at hmem
    · obtain ⟨hmem, hlive⟩ := List.mem_filter.mp hmem
      rw [wrappedAt_collect, if_pos (of_decide_eq_true hlive)]
      exact hs.wrapper hmem
    · cases hmem
  handleOnce c := by
    rw [handlesIn_collect]
    split
    · exact (hs.handleOnce c).sublist (List.filter_sublist.map _)
    · exact List.nodup_nil
  wrapperOnce c := by
    rw [wrappersIn_collect]
    split
    · exact (hs.wrapperOnce c).sublist (List.filter_sublist.map _)
    · exact List.nodup_nil

end Collect

end Store

end SsaDebugInfo
