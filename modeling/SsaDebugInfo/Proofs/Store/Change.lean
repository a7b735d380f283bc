import SsaDebugInfo.Proofs.Store.Collection

/-!
# How stores change

A store changes by changes of one object and by new objects. Both extend it (`Store.Extends`): no
object goes, and none comes under an identity that was given out before. What else stays is said
identity by identity, by a relation between the objects before and after (`Store.Pointwise`).

- `Extends.modify`, `Extends.push`: the two ways to change a store extend it.
- `Pointwise.modify`, `Pointwise.push`: a relation between objects before and after is shown for the
  one object that changes or comes.
-/

namespace SsaDebugInfo.Store

variable {kind : Kind} {s t u : Store}

/-! ## Objects only come -/

/-- No object goes, and none comes under an identity that was given out before. -/
structure Extends (s t : Store) : Prop where
  size : ∀ kind, (s.table kind).size ≤ (t.table kind).size
  kept : ∀ {kind : Kind} (id : Id kind), (s.get? id).isSome → (t.get? id).isSome
  fresh : ∀ {kind : Kind} (id : Id kind), (t.get? id).isSome →
    (s.get? id).isSome ∨ (s.table kind).size ≤ id.index

namespace Extends

theorem refl (s : Store) : s.Extends s where
  size _ := Nat.le_refl _
  kept _ h := h
  fresh _ h := .inl h

theorem trans (hst : s.Extends t) (htu : t.Extends u) : s.Extends u where
  size kind := Nat.le_trans (hst.size kind) (htu.size kind)
  kept id h := htu.kept id (hst.kept id h)
  fresh {kind} id h := by
    rcases htu.fresh id h with h | h
    · exact hst.fresh id h
    · exact .inr (Nat.le_trans (hst.size kind) h)

theorem has (h : s.Extends t) {ref : Ref} (href : s.Has ref) : t.Has ref := by
  obtain ⟨kind, id, rfl⟩ := exists_id ref
  exact (has_ref id).mpr (h.kept id ((has_ref id).mp href))

theorem hasIn (h : s.Extends t) {slot : Slot} (hslot : s.HasIn slot) : t.HasIn slot :=
  fun ref href => h.has (hslot ref href)

/-- A value whose identity has been given out does not come back. -/
theorem has_value_of_lt (h : s.Extends t) {v : ValueId} (hv : t.Has (.value v))
    (hlt : v.index < s.values.size) : s.Has (.value v) := by
  rcases h.fresh v hv with hv | hle
  · exact hv
  · exact absurd hlt (Nat.not_lt.mpr hle)

theorem of_get?_eq (hget : ∀ {kind : Kind} (id : Id kind), t.get? id = s.get? id)
    (hsize : ∀ kind, (t.table kind).size = (s.table kind).size) : s.Extends t where
  size kind := Nat.le_of_eq (hsize kind).symm
  kept id h := by rwa [hget]
  fresh id h := .inl (by rwa [hget] at h)

theorem modify (id : Id kind) (f : Object kind → Object kind) : s.Extends (s.modify id f) where
  size k := by
    by_cases hk : k = kind
    · subst hk
      simp [Store.modify, Table.modify, Table.size]
    · exact Nat.le_of_eq (by rw [Store.modify, table_setTable_other _ _ hk])
  kept {k} i h := (has_ref i).mp (has_modify.mpr ((has_ref i).mpr h))
  fresh {k} i h := .inl ((has_ref i).mp (has_modify.mp ((has_ref i).mpr h)))

theorem push (kind : Kind) (object : Object kind) : s.Extends (s.push kind object) where
  size k := by
    by_cases hk : k = kind
    · subst hk
      simp [Store.push, Table.push, Table.size]
    · exact Nat.le_of_eq (by rw [Store.push, table_setTable_other _ _ hk])
  kept {k} i h := (has_ref i).mp (has_push.mpr (.inr ((has_ref i).mpr h)))
  fresh {k} i h := by
    by_cases hk : k = kind
    · subst hk
      rw [get?_push] at h
      split at h
      · next hi => exact .inr (by rw [hi]; exact Nat.le_refl _)
      · exact .inl h
    · rw [get?_push_kind s object i hk] at h
      exact .inl h

end Extends

/-- Only what a change makes of the object concerned matters. -/
theorem modify_congr {id : Id kind} {f g : Object kind → Object kind}
    (h : ∀ o, s.get? id = some o → f o = g o) : s.modify id f = s.modify id g := by
  have hcells : (s.table kind).modify id f = (s.table kind).modify id g := by
    rw [Table.modify, Table.modify]
    congr 1
    refine List.ext_getElem? fun i => ?_
    rw [List.getElem?_modify, List.getElem?_modify]
    by_cases hi : id.index = i
    · subst hi
      cases hcell : (s.table kind).cells[id.index]? with
      | none => rfl
      | some cell =>
        cases cell with
        | none => rfl
        | some o =>
          have ho : s.get? id = some o := by rw [get?, Table.get?, hcell]; rfl
          simp [h o ho]
    · simp [hi]
  rw [Store.modify, Store.modify, hcells]

/-! ## Objects before and after -/

/-- A relation between the objects of an identity before and after a change. -/
abbrev ObjectRelation := (kind : Kind) → Option (Object kind) → Option (Object kind) → Prop

/-- The objects of every identity are related. -/
def Pointwise (R : ObjectRelation) (s t : Store) : Prop :=
  ∀ (kind : Kind) (id : Id kind), R kind (s.get? id) (t.get? id)

namespace Pointwise

variable {R : ObjectRelation}

theorem of_get?_eq (refl : ∀ kind o, R kind o o)
    (hget : ∀ {kind : Kind} (id : Id kind), t.get? id = s.get? id) : Pointwise R s t := by
  intro kind id
  rw [hget]
  exact refl kind _

theorem trans (htrans : ∀ kind o p q, R kind o p → R kind p q → R kind o q)
    (hst : Pointwise R s t) (htu : Pointwise R t u) : Pointwise R s u :=
  fun kind id => htrans _ _ _ _ (hst kind id) (htu kind id)

/-- For a change of one object only that object is to be looked at. -/
theorem modify (refl : ∀ kind o, R kind o o) (id : Id kind) {f : Object kind → Object kind}
    (h : ∀ o, s.get? id = some o → R kind (some o) (some (f o))) :
    Pointwise R s (s.modify id f) := by
  intro k i
  by_cases hk : k = kind
  · subst hk
    rw [get?_modify]
    split
    · next hi =>
      subst hi
      cases ho : s.get? i with
      | none => exact refl _ _
      | some o => exact h o ho
    · exact refl _ _
  · rw [get?_modify_kind s id f i hk]
    exact refl _ _

/-- For a new object only that object is to be looked at. -/
theorem push (refl : ∀ kind o, R kind o o) (kind : Kind) {object : Object kind}
    (h : R kind none (some object)) : Pointwise R s (s.push kind object) := by
  intro k i
  by_cases hk : k = kind
  · subst hk
    rw [get?_push]
    split
    · next hi =>
      rw [hi, get?_nextId]
      exact h
    · exact refl _ _
  · rw [get?_push_kind s object i hk]
    exact refl _ _

end Pointwise

end SsaDebugInfo.Store
