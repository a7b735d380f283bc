import SsaDebugInfo.Proofs.Store.Tables

/-!
# Users and what they use

A user stands among the uses of exactly the values that are its operands (`Store.Agrees`). This is
said user by user, so that it can be kept for some users where others have operands that are no
values.

- `agrees_of_not_has`: it holds of what is not there.
- `Agrees.of_keepsUses`, `Agrees.collect`: changes that do not touch uses and operands keep it, and
  so does collection.
-/

namespace SsaDebugInfo

namespace Store

variable {kind : Kind} {s t u : Store} {roots : List Slot}

/-- Whether an identity is that of a debug record. -/
def isRecord (s : Store) (d : ValueId) : Bool :=
  ((s.get? d).map (·.isDebugValue)).getD false

theorem isRecord_iff {d : ValueId} :
    s.isRecord d = true ↔ ∃ v, s.get? d = some v ∧ v.isDebugValue = true := by
  unfold isRecord
  cases s.get? d with
  | none => simp
  | some v => simp

theorem has_of_isRecord {d : ValueId} (h : s.isRecord d = true) : s.Has (.value d) := by
  obtain ⟨v, hv, _⟩ := isRecord_iff.mp h
  exact has_value_iff.mpr ⟨v, hv⟩

theorem usesOf_eq {v : ValueId} {o : Value} (h : s.get? v = some o) : s.usesOf v = o.uses := by
  rw [usesOf, h]
  rfl

theorem operandsOf_eq {v : ValueId} {o : Value} (h : s.get? v = some o) :
    s.operandsOf v = o.operands := by
  rw [operandsOf, h]
  rfl

theorem usesOf_of_not_has {v : ValueId} (h : ¬ s.Has (.value v)) : s.usesOf v = [] := by
  rw [usesOf, Option.not_isSome_iff_eq_none.mp h]
  rfl

theorem operandsOf_of_not_has {v : ValueId} (h : ¬ s.Has (.value v)) : s.operandsOf v = [] := by
  rw [operandsOf, Option.not_isSome_iff_eq_none.mp h]
  rfl

theorem has_of_mem_usesOf {u v : ValueId} (h : u ∈ s.usesOf v) : s.Has (.value v) := by
  by_cases hv : s.Has (.value v)
  · exact hv
  · rw [usesOf_of_not_has hv] at h
    cases h

theorem has_of_mem_operandsOf {u : ValueId} {o : Slot} (h : o ∈ s.operandsOf u) :
    s.Has (.value u) := by
  by_cases hu : s.Has (.value u)
  · exact hu
  · rw [operandsOf_of_not_has hu] at h
    cases h

/-- The users of a value are there. -/
theorem Closed.has_user (hs : s.Closed) {u v : ValueId} (h : u ∈ s.usesOf v) :
    s.Has (.value u) := by
  obtain ⟨o, ho⟩ := has_value_iff.mp (has_of_mem_usesOf h)
  rw [usesOf_eq ho] at h
  exact (hs.holdsOnly ho).uses u h _ rfl

/-- The operands of a user are there. -/
theorem Closed.hasIn_operand (hs : s.Closed) {u : ValueId} {o : Slot} (h : o ∈ s.operandsOf u) :
    s.HasIn o := by
  obtain ⟨v, hv⟩ := has_value_iff.mp (has_of_mem_operandsOf h)
  rw [operandsOf_eq hv] at h
  exact (hs.holdsOnly hv).operands o h

/-! ## Agreement -/

/-- The user stands among the uses of the values that are its operands and of no others, and all its
operands are values. -/
structure Agrees (s : Store) (u : ValueId) : Prop where
  mem_iff : ∀ v, u ∈ s.usesOf v ↔ Slot.ofValue v ∈ s.operandsOf u
  value : ∀ {o}, o ∈ s.operandsOf u → ∃ v, o = Slot.ofValue v

theorem agrees_of_not_has (hs : s.Closed) {u : ValueId} (hu : ¬ s.Has (.value u)) :
    s.Agrees u where
  mem_iff v := by
    rw [operandsOf_of_not_has hu]
    constructor
    · intro h
      exact absurd (hs.has_user h) hu
    · intro h
      cases h
  value h := absurd (has_of_mem_operandsOf h) hu

/-! ## What leaves uses alone -/

/-- An object before and after has the same users and operands, and stays a debug record or
something else. A new object has neither users nor operands. -/
def SameUsers : ObjectRelation
  | .value, v, w => (w.map Value.uses).getD [] = (v.map Value.uses).getD [] ∧
      (w.map Value.operands).getD [] = (v.map Value.operands).getD [] ∧
      (v.isSome → w.map Value.isDebugValue = v.map Value.isDebugValue)
  | _, _, _ => True

theorem SameUsers.refl (kind : Kind) (o : Option (Object kind)) : SameUsers kind o o := by
  cases kind with
  | value => exact ⟨rfl, rfl, fun _ => rfl⟩
  | _ => trivial

theorem SameUsers.trans (kind : Kind) (o p q : Option (Object kind))
    (hop : SameUsers kind o p) (hpq : SameUsers kind p q) : SameUsers kind o q := by
  cases kind with
  | value =>
    refine ⟨hpq.1.trans hop.1, hpq.2.1.trans hop.2.1, fun ho => ?_⟩
    have hp : p.isSome := by
      have h := congrArg Option.isSome (hop.2.2 ho)
      rwa [Option.isSome_map, Option.isSome_map, ho] at h
    exact (hpq.2.2 hp).trans (hop.2.2 ho)
  | _ => trivial

/-- A change of neither uses nor operands. -/
structure KeepsUses (s t : Store) : Prop extends s.Extends t where
  users : Pointwise SameUsers s t

namespace KeepsUses

theorem refl (s : Store) : s.KeepsUses s :=
  ⟨.refl s, Pointwise.of_get?_eq SameUsers.refl fun _ => rfl⟩

theorem trans (hst : s.KeepsUses t) (htu : t.KeepsUses u) : s.KeepsUses u :=
  ⟨hst.toExtends.trans htu.toExtends, Pointwise.trans SameUsers.trans hst.users htu.users⟩

variable (h : s.KeepsUses t)

include h

theorem usesOf (v : ValueId) : t.usesOf v = s.usesOf v := (h.users _ v).1

theorem operandsOf (v : ValueId) : t.operandsOf v = s.operandsOf v := (h.users _ v).2.1

theorem isRecord {d : ValueId} (hd : s.Has (.value d)) : t.isRecord d = s.isRecord d := by
  rw [Store.isRecord, Store.isRecord, (h.users _ d).2.2 hd]

theorem agrees {d : ValueId} (hd : s.Agrees d) : t.Agrees d where
  mem_iff v := by
    rw [h.usesOf, h.operandsOf]
    exact hd.mem_iff v
  value hmem := by
    rw [h.operandsOf] at hmem
    exact hd.value hmem

end KeepsUses

/-- A change of neither uses nor operands nor tables, after which no object holds what is not
there. -/
structure Aside (s t : Store) : Prop extends s.SameTables t, s.KeepsUses t where
  closed : s.Closed → t.Closed

namespace Aside

theorem refl (s : Store) : s.Aside s :=
  ⟨.refl s, (KeepsUses.refl s).users, fun hs => hs⟩

theorem trans (hst : s.Aside t) (htu : t.Aside u) : s.Aside u :=
  ⟨hst.toSameTables.trans htu.toSameTables, (hst.toKeepsUses.trans htu.toKeepsUses).users,
    fun hs => htu.closed (hst.closed hs)⟩

theorem of_get?_eq (hget : ∀ {kind : Kind} (id : Id kind), t.get? id = s.get? id)
    (hsize : ∀ kind, (t.table kind).size = (s.table kind).size) : s.Aside t where
  toExtends := .of_get?_eq hget hsize
  entries := Pointwise.of_get?_eq SameEntries.refl hget
  users := Pointwise.of_get?_eq SameUsers.refl hget
  closed hs :=
    have hhas : ∀ {ref}, s.Has ref → t.Has ref := (Extends.of_get?_eq hget hsize).has
    { held := fun id o ho slot hslot ref href =>
        hhas (hs.held id (by rwa [hget] at ho) slot hslot ref href)
      global := hhas hs.global }

/-- A change of one object is aside if that object keeps its part in uses, operands and tables and
holds only what is there. -/
theorem modify {id : Id kind} {f : Object kind → Object kind}
    (hentries : ∀ o, s.get? id = some o → SameEntries kind (some o) (some (f o)))
    (husers : ∀ o, s.get? id = some o → SameUsers kind (some o) (some (f o)))
    (hslots : s.Closed → ∀ o, s.get? id = some o → ∀ slot ∈ kind.slots (f o), s.HasIn slot) :
    s.Aside (s.modify id f) where
  toExtends := .modify id f
  entries := Pointwise.modify SameEntries.refl id hentries
  users := Pointwise.modify SameUsers.refl id husers
  closed hs := hs.modify (hslots hs)

theorem modify_value {id : ValueId} {f : Value → Value} (hlike : ∀ o, Value.Like o (f o))
    (hholds : s.Closed → ∀ o, s.get? id = some o → (f o).HoldsOnly s.HasIn) :
    s.Aside (s.modify id f) := by
  refine modify (fun o _ => ?_) (fun o _ => ?_) fun hs o ho => ?_
  · exact ⟨(hlike o).wrapped?, fun c hc => (hlike o).context.trans hc⟩
  · exact ⟨(hlike o).uses, (hlike o).operands, fun _ => congrArg some (hlike o).isDebugValue⟩
  · exact Value.holdsOnly_iff.mp (hholds hs o ho)

/-- A new object is aside if it has no part in uses, operands and tables and holds only what is
there. -/
theorem push {object : Object kind} (hentries : SameEntries kind none (some object))
    (husers : SameUsers kind none (some object))
    (hslots : ∀ slot ∈ kind.slots object, s.HasIn slot) : s.Aside (s.push kind object) where
  toExtends := .push kind object
  entries := Pointwise.push SameEntries.refl kind hentries
  users := Pointwise.push SameUsers.refl kind husers
  closed hs := hs.push hslots

end Aside

theorem keepsUses_addHandle {c : ContextId} {v : ValueId} {handle : Node} :
    s.KeepsUses (s.addHandle c v handle) where
  toExtends := (Extends.push .node handle).trans (Extends.modify c _)
  users := Pointwise.trans SameUsers.trans (Pointwise.push SameUsers.refl .node trivial)
    (Pointwise.modify SameUsers.refl c fun _ _ => trivial)

theorem keepsUses_addWrapper {c : ContextId} {h : NodeId} : s.KeepsUses (s.addWrapper c h) where
  toExtends := (Extends.push .value _).trans (Extends.modify c _)
  users := Pointwise.trans SameUsers.trans
    (Pointwise.push SameUsers.refl .value ⟨rfl, rfl, fun h => nomatch h⟩)
    (Pointwise.modify SameUsers.refl c fun _ _ => trivial)

/-! ## Collection -/

theorem usesOf_collect (v : ValueId) :
    (s.collect roots).usesOf v = if s.Live roots (.value v) then s.usesOf v else [] :=
  asked_collect (fun o : Option (Object .value) => (o.map Value.uses).getD []) (by decide) v

theorem operandsOf_collect (v : ValueId) :
    (s.collect roots).operandsOf v = if s.Live roots (.value v) then s.operandsOf v else [] :=
  asked_collect (fun o : Option (Object .value) => (o.map Value.operands).getD []) (by decide) v

theorem isRecord_collect (v : ValueId) :
    (s.collect roots).isRecord v = if s.Live roots (.value v) then s.isRecord v else false :=
  asked_collect (fun o : Option (Object .value) => (o.map Value.isDebugValue).getD false)
    (by decide) v

theorem live_of_mem_operandsOf {u v : ValueId} (hlive : s.Live roots (.value u))
    (h : Slot.ofValue v ∈ s.operandsOf u) : s.Live roots (.value v) := by
  obtain ⟨o, ho⟩ := has_value_iff.mp (has_of_mem_operandsOf h)
  rw [operandsOf_eq ho] at h
  exact (live_holdsOnly ho hlive).operands _ h _ rfl

/-- Collection keeps the agreement, since a user keeps its operands alive. -/
theorem Agrees.collect (hs : s.Closed) {u : ValueId} (hu : s.Agrees u) :
    (s.collect roots).Agrees u := by
  by_cases hlive : s.Live roots (.value u)
  · have hoperands : (s.collect roots).operandsOf u = s.operandsOf u := by
      rw [operandsOf_collect, if_pos hlive]
    constructor
    · intro v
      rw [hoperands, usesOf_collect, ← hu.mem_iff]
      split
      · exact Iff.rfl
      · next hdead =>
        -- the value went, so that no operand of a live user was it
        refine iff_of_false List.not_mem_nil fun hmem => ?_
        exact hdead (live_of_mem_operandsOf hlive ((hu.mem_iff v).mp hmem))
    · intro o ho
      rw [hoperands] at ho
      exact hu.value ho
  · exact agrees_of_not_has hs.collect fun h => hlive (has_collect.mp h).1

end Store

end SsaDebugInfo
