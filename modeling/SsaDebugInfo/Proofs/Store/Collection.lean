import SsaDebugInfo.Proofs.Store.Held

/-!
# Collecting keeps what is held

Marking finds everything that can be reached, so that what collection keeps holds nothing that it
throws away.

- `Reachability.mem_mark_iff`: after enough rounds the marks are exactly what can be reached.
- `Store.get?_collect`, `Store.has_collect`: an object is there after a collection, unchanged, if
  it is live; contexts lose the entries that name something that went.
- `Store.live_of_held`: what a live object holds is live.
- `Store.Closed.collect`: collection keeps a store closed.
-/

namespace SsaDebugInfo

namespace Reachability

variable {α : Type} [DecidableEq α] {next : α → List α}

theorem mem_fresh {frontier marked : List α} {b : α} :
    b ∈ fresh next frontier marked ↔ (∃ a ∈ frontier, b ∈ next a) ∧ b ∉ marked := by
  simp [fresh]

/-- Marks stay. -/
theorem mem_grow_of_mem {rounds : Nat} {frontier marked : List α} {a : α} (ha : a ∈ marked) :
    a ∈ grow next rounds frontier marked := by
  fun_induction grow next rounds frontier marked with
  | case1 => exact ha
  | case2 => exact ha
  | case3 rounds frontier marked _ found ih => exact ih (List.mem_append_right _ ha)

/-- Once the marks are closed under edges, growing marks nothing more. -/
theorem mem_of_mem_grow {rounds : Nat} {frontier marked : List α}
    (hsub : ∀ a ∈ frontier, a ∈ marked) (hclosed : ∀ a ∈ marked, ∀ b ∈ next a, b ∈ marked)
    {a : α} (ha : a ∈ grow next rounds frontier marked) : a ∈ marked := by
  fun_induction grow next rounds frontier marked with
  | case1 => exact ha
  | case2 => exact ha
  | case3 rounds frontier marked _ found ih =>
    have hfound : found = [] := by
      refine List.eq_nil_iff_forall_not_mem.mpr fun b hb => ?_
      obtain ⟨⟨c, hc, hbc⟩, hnot⟩ := mem_fresh.mp hb
      exact hnot (hclosed c (hsub c hc) b hbc)
    rw [hfound, List.nil_append] at ih ha
    exact ih (fun b hb => absurd hb List.not_mem_nil) hclosed ha

/-- Growing ends closed under edges if the rounds outnumber the unmarked things with edges: a round
that marks none of these is the last but one to mark anything. -/
theorem edge_of_mem_grow {support : List α} (hsupport : ∀ a b, b ∈ next a → a ∈ support)
    {rounds : Nat} {frontier marked : List α} (hsub : ∀ a ∈ frontier, a ∈ marked)
    (hdone : ∀ a ∈ marked, a ∉ frontier → ∀ b ∈ next a, b ∈ marked)
    (hrounds : (support.filter (· ∉ marked)).length < rounds)
    {a b : α} (ha : a ∈ grow next rounds frontier marked) (hb : b ∈ next a) :
    b ∈ grow next rounds frontier marked := by
  fun_induction grow next rounds frontier marked with
  | case1 => exact absurd hrounds (Nat.not_lt_zero _)
  | case2 => exact hdone a ha List.not_mem_nil b hb
  | case3 rounds frontier marked _ found ih =>
    have hsub' : ∀ c ∈ found, c ∈ found ++ marked := fun c hc => List.mem_append_left _ hc
    -- edges from the old frontier lead to marks or to what was found just now
    have hdone' : ∀ c ∈ found ++ marked, c ∉ found → ∀ d ∈ next c, d ∈ found ++ marked := by
      intro c hc hnot d hd
      have hc := (List.mem_append.mp hc).resolve_left hnot
      by_cases hcf : c ∈ frontier
      · by_cases hdm : d ∈ marked
        · exact List.mem_append_right _ hdm
        · exact List.mem_append_left _ (mem_fresh.mpr ⟨⟨c, hcf, hd⟩, hdm⟩)
      · exact List.mem_append_right _ (hdone c hc hcf d hd)
    by_cases hany : ∃ c ∈ found, c ∈ support
    · -- one more thing with edges is marked, so that the rounds left still outnumber the rest
      refine ih hsub' hdone' ?_ ha
      obtain ⟨c, hc, hcs⟩ := hany
      have hsplit : support.filter (· ∉ found ++ marked) =
          (support.filter (· ∉ marked)).filter (· ∉ found) := by
        rw [List.filter_filter]
        refine List.filter_congr fun x _ => ?_
        simp [List.mem_append]
      have hlt : (support.filter (· ∉ found ++ marked)).length <
          (support.filter (· ∉ marked)).length := by
        rw [hsplit, List.length_filter_lt_length_iff_exists]
        exact ⟨c, List.mem_filter.mpr ⟨hcs, by simpa using (mem_fresh.mp hc).2⟩, by simpa using hc⟩
      omega
    · -- nothing found has edges, so that the marks are closed already
      have hclosed : ∀ c ∈ found ++ marked, ∀ d ∈ next c, d ∈ found ++ marked := by
        intro c hc d hd
        exact hdone' c hc (fun hcf => hany ⟨c, hcf, hsupport c d hd⟩) d hd
      exact mem_grow_of_mem (hclosed a (mem_of_mem_grow hsub' hclosed ha) b hb)

/-- With more rounds than there are things with edges, marking finds exactly what can be reached. -/
theorem mem_mark_iff {support : List α} (hsupport : ∀ a b, b ∈ next a → a ∈ support)
    {rounds : Nat} (hrounds : support.length < rounds) {roots : List α} {a : α} :
    a ∈ mark next rounds roots ↔ Reach next roots a := by
  constructor
  · exact reach_of_mem_mark
  · intro h
    induction h with
    | root hroot => exact mem_grow_of_mem (List.mem_eraseDups.mpr hroot)
    | edge _ hb ih =>
      exact edge_of_mem_grow hsupport (fun _ hc => hc) (fun c hc hnot => absurd hc hnot)
        (Nat.lt_of_le_of_lt (List.length_filter_le _ _) hrounds) ih hb

end Reachability

namespace Store

variable {kind : Kind} {s : Store} {roots : List Slot}

/-! ## What is live -/

/-- References to all objects of a kind ever made. -/
def madeOf (s : Store) (kind : Kind) : List Ref :=
  (List.range (s.table kind).size).map fun i => Id.ref (⟨i⟩ : Id kind)

/-- References to all objects ever made. -/
def made (s : Store) : List Ref :=
  s.madeOf .value ++ s.madeOf .node ++ s.madeOf .function ++ s.madeOf .module ++
    s.madeOf .context ++ s.madeOf .layout ++ s.madeOf .engine ++ s.madeOf .emitter ++
    s.madeOf .diagnostic

theorem length_made : s.made.length = s.size := by
  simp [made, madeOf, size, table, Nat.add_assoc]

theorem index_lt_of_get? {id : Id kind} {o : Object kind} (h : s.get? id = some o) :
    id.index < (s.table kind).size := by
  by_cases hlt : id.index < (s.table kind).size
  · exact hlt
  · have hnone : s.get? id = none := Table.get?_eq_none_of_size_le _ (Nat.le_of_not_lt hlt)
    rw [hnone] at h
    cases h

theorem mem_made_of_get? {id : Id kind} {o : Object kind} (h : s.get? id = some o) :
    id.ref ∈ s.made := by
  have hmem : id.ref ∈ s.madeOf kind :=
    List.mem_map.mpr ⟨id.index, List.mem_range.mpr (index_lt_of_get? h), rfl⟩
  cases kind <;> simp [made, hmem]

theorem mem_holds_ref {id : Id kind} {ref : Ref} :
    ref ∈ s.holds id.ref ↔ ∃ o, s.get? id = some o ∧ some ref ∈ kind.slots o := by
  have hslots : s.slotsOf id.ref = ((s.get? id).map kind.slots).getD [] := by
    cases kind <;> try rfl
    all_goals cases h : s.get? id <;> rfl
  rw [holds, List.mem_filterMap, hslots]
  cases s.get? id <;> simp

/-- Whether an object is kept by a collection. -/
def Live (s : Store) (roots : List Slot) (ref : Ref) : Prop :=
  ref ∈ s.live (.context globalContext :: roots.filterMap id)

instance : Decidable (s.Live roots ref) :=
  inferInstanceAs (Decidable (_ ∈ _))

theorem live_iff_reach {ref : Ref} :
    s.Live roots ref ↔
      Reachability.Reach s.holds (.context globalContext :: roots.filterMap id) ref := by
  have hsupport : ∀ ref held, held ∈ s.holds ref → ref ∈ s.made := by
    intro ref held h
    obtain ⟨kind, id, rfl⟩ := exists_id ref
    obtain ⟨o, ho, -⟩ := mem_holds_ref.mp h
    exact mem_made_of_get? ho
  refine Reachability.mem_mark_iff hsupport ?_
  rw [length_made]
  omega

theorem live_global : s.Live roots (.context globalContext) :=
  live_iff_reach.mpr (.root List.mem_cons_self)

theorem live_of_root {ref : Ref} (h : some ref ∈ roots) : s.Live roots ref :=
  live_iff_reach.mpr (.root (List.mem_cons_of_mem _ (List.mem_filterMap.mpr ⟨_, h, rfl⟩)))

/-- What a live object holds is live. -/
theorem live_of_held (id : Id kind) {o : Object kind} (ho : s.get? id = some o)
    (hlive : s.Live roots id.ref) {ref : Ref} (h : some ref ∈ kind.slots o) : s.Live roots ref :=
  live_iff_reach.mpr (.edge (live_iff_reach.mp hlive) (mem_holds_ref.mpr ⟨o, ho, h⟩))

/-! ## What a collection leaves -/

/-- A context without the entries that name something that is not live. -/
def pruned (s : Store) (roots : List Slot) (c : Context) : Context where
  handles := c.handles.filter fun entry => s.Live roots (.node entry.2)
  wrappers := c.wrappers.filter fun entry => s.Live roots (.value entry.2)

theorem collect_eq_retain : s.collect roots = s.retain fun ref => decide (s.Live roots ref) := by
  have hkeep : (s.live (.context globalContext :: roots.filterMap id)).contains =
      fun ref => decide (s.Live roots ref) := by
    funext ref
    exact List.contains_eq_mem _ _
  rw [collect, hkeep]

theorem get?_collect {id : Id kind} (h : kind ≠ .context) :
    (s.collect roots).get? id = if s.Live roots id.ref then s.get? id else none := by
  rw [collect_eq_retain]
  cases kind with
  | context => exact absurd rfl h
  | _ =>
    simp only [retain, get?, table, Table.get?_retain, Function.comp_apply, decide_eq_true_eq]
    rfl

/-- What is asked of an object is answered after a collection as before it, if the object is live,
and otherwise as if there were none. -/
theorem asked_collect {α : Type} (question : Option (Object kind) → α) (h : kind ≠ .context)
    (id : Id kind) : question ((s.collect roots).get? id) =
      if s.Live roots id.ref then question (s.get? id) else question none := by
  rw [get?_collect h]
  exact apply_ite question _ _ _

theorem get?_collect_context {id : ContextId} :
    (s.collect roots).get? id =
      if s.Live roots (.context id) then (s.get? id).map (s.pruned roots) else none := by
  rw [collect_eq_retain]
  simp only [retain, get?, table, Table.get?_map, Table.get?_retain, Function.comp_apply,
    decide_eq_true_eq]
  split
  · rfl
  · rfl

/-- What is there after a collection was there before. -/
theorem get?_of_get?_collect {id : Id kind} {o : Object kind} (hk : kind ≠ .context)
    (h : (s.collect roots).get? id = some o) : s.get? id = some o ∧ s.Live roots id.ref := by
  rw [get?_collect hk] at h
  split at h
  · next hlive => exact ⟨h, hlive⟩
  · cases h

theorem has_collect {ref : Ref} : (s.collect roots).Has ref ↔ s.Live roots ref ∧ s.Has ref := by
  obtain ⟨kind, id, rfl⟩ := exists_id ref
  rw [has_ref, has_ref]
  by_cases hk : kind = .context
  · subst hk
    rw [get?_collect_context]
    split
    · next h => simp [Id.ref, h]
    · next h => simp [Id.ref, h]
  · rw [get?_collect hk]
    split
    · next h => simp [h]
    · next h => simp [h]

/-- What a live value holds is live. -/
theorem live_holdsOnly {v : ValueId} {o : Value} (ho : s.get? v = some o)
    (hlive : s.Live roots (.value v)) :
    o.HoldsOnly fun slot => ∀ ref, slot = some ref → s.Live roots ref := by
  refine Value.holdsOnly_iff.mpr ?_
  rintro _ hslot ref rfl
  exact live_of_held v ho hlive hslot

/-- Collection keeps a store closed. -/
theorem Closed.collect (hs : s.Closed) : (s.collect roots).Closed where
  held {kind} id o h slot hslot ref href := by
    by_cases hk : kind = .context
    · subst hk
      cases hslot
    · obtain ⟨ho, hlive⟩ := get?_of_get?_collect hk h
      subst href
      exact has_collect.mpr ⟨live_of_held id ho hlive hslot, hs.held id ho _ hslot ref rfl⟩
  global := has_collect.mpr ⟨live_global, hs.global⟩

/-- Collection keeps what its roots hold. -/
theorem HasIn.collect {slot : Slot} (h : s.HasIn slot) (hroot : slot ∈ roots) :
    (s.collect roots).HasIn slot := by
  rintro ref rfl
  exact has_collect.mpr ⟨live_of_root hroot, h ref rfl⟩

@[simp] theorem size_values_collect : (s.collect roots).values.size = s.values.size := by
  simp [Store.collect, retain, Table.retain, Table.size]

end Store

end SsaDebugInfo
