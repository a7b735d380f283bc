import SsaDebugInfo.Store.Ref

/-!
# Tables of objects

A table holds the objects of one kind under their identities. Identities are given out in order and
never again: collecting an object leaves its cell empty. Each operation comes with lemmas that say
what `get?` finds afterwards, at the identity concerned and at the others.
-/

namespace SsaDebugInfo

/-- The objects of one kind, by identity. -/
structure Table (kind : Kind) (α : Type) where
  cells : List (Option α)

namespace Table

variable {kind : Kind} {α : Type}

/-- The table without any object. -/
def empty : Table kind α := ⟨[]⟩

/-- How many identities have been given out. -/
def size (t : Table kind α) : Nat := t.cells.length

/-- The object of an identity, unless it has been collected. -/
def get? (t : Table kind α) (id : Id kind) : Option α :=
  t.cells[id.index]?.join

/-- The identity that the next object gets. -/
def nextId (t : Table kind α) : Id kind := ⟨t.cells.length⟩

/-- Adds an object under the next identity. -/
def push (t : Table kind α) (a : α) : Table kind α := ⟨t.cells ++ [some a]⟩

/-- Changes the object of an identity, if there is one. -/
def modify (t : Table kind α) (id : Id kind) (f : α → α) : Table kind α :=
  ⟨t.cells.modify id.index (Option.map f)⟩

/-- Empties the cells whose objects are not to be kept. -/
def retain (t : Table kind α) (keep : Id kind → Bool) : Table kind α :=
  ⟨t.cells.mapIdx fun i cell => if keep ⟨i⟩ then cell else none⟩

/-- Changes all objects. -/
def map (t : Table kind α) (f : α → α) : Table kind α :=
  ⟨t.cells.map (Option.map f)⟩

@[simp] theorem get?_empty (id : Id kind) : (empty : Table kind α).get? id = none := by
  simp [empty, get?]

@[simp] theorem get?_push_self (t : Table kind α) (a : α) :
    (t.push a).get? t.nextId = some a := by
  simp [push, get?, nextId]

theorem get?_push_other (t : Table kind α) (a : α) {id : Id kind} (h : id ≠ t.nextId) :
    (t.push a).get? id = t.get? id := by
  have hne : id.index ≠ t.cells.length := fun e => h (by cases id; simp_all [nextId])
  simp only [push, get?, List.getElem?_append]
  split
  · rfl
  · rw [List.getElem?_eq_none (by simp; omega), List.getElem?_eq_none (by omega)]

@[simp] theorem get?_modify_self (t : Table kind α) (id : Id kind) (f : α → α) :
    (t.modify id f).get? id = (t.get? id).map f := by
  simp only [modify, get?, List.getElem?_modify]
  cases t.cells[id.index]? <;> simp

theorem get?_modify_other (t : Table kind α) {id other : Id kind} (f : α → α) (h : other ≠ id) :
    (t.modify id f).get? other = t.get? other := by
  have hne : id.index ≠ other.index := fun e => h (by cases id; cases other; simp_all)
  simp only [modify, get?, List.getElem?_modify, if_neg hne]
  cases t.cells[other.index]? <;> simp

@[simp] theorem get?_retain (t : Table kind α) (keep : Id kind → Bool) (id : Id kind) :
    (t.retain keep).get? id = if keep id then t.get? id else none := by
  obtain ⟨i⟩ := id
  simp only [retain, get?, List.getElem?_mapIdx]
  cases t.cells[i]? with
  | none => simp
  | some cell => simp only [Option.map_some, Option.join_some]

@[simp] theorem get?_map (t : Table kind α) (f : α → α) (id : Id kind) :
    (t.map f).get? id = (t.get? id).map f := by
  simp only [map, get?, List.getElem?_map]
  cases t.cells[id.index]? <;> simp

/-- An identity that has not been given out has no object. -/
theorem get?_eq_none_of_size_le (t : Table kind α) {id : Id kind} (h : t.size ≤ id.index) :
    t.get? id = none := by
  simp [get?, List.getElem?_eq_none (show t.cells.length ≤ id.index from h)]

@[simp] theorem get?_nextId (t : Table kind α) : t.get? t.nextId = none :=
  t.get?_eq_none_of_size_le (by simp [nextId, size])

end Table

end SsaDebugInfo
