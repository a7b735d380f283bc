import Mathlib.Data.List.Perm.Subperm
import SsaDebugInfo.Proofs.Records.Intact

/-!
# The insertions that build a vector

A vector is built by a chain of insertions: each takes the vector of the one before it as its first
operand (`Store.Builds`). Walking along the chain never meets an insertion twice, so that a walk
that is longer than there are values goes round in a cycle, and otherwise yields the whole chain.

- `chain_eq_ok`: what the walk yields is the chain.
- `Intact.builds_iff`, `Intact.elementIndex`: chains and indices where the program is intact.
- `pieceOffset_eq`, `pieceOffset_spec`, `pieceOffset_of_fits`: where an element lies.
-/

namespace SsaDebugInfo

namespace Store

variable {s t : Store} {slot : Slot} {x : ValueId} {links others : List ValueId}

/-- The insertions that build what is in a slot, last one first. -/
inductive Builds (s : Store) : Slot → List ValueId → Prop
  | stop {slot : Slot} (h : ∀ id v, s.valueIn? slot = some (id, v) → v.isInsertElement = false) :
    Builds s slot []
  | insert {id : ValueId} {v : Value} {vector : Slot} {rest : List Slot} {links : List ValueId}
    (hv : s.get? id = some v) (hinsert : v.isInsertElement = true)
    (hoperands : v.operands = vector :: rest) (h : Builds s vector links) :
    Builds s (.ofValue id) (id :: links)

/-- Of values that are there, each once, there are no more than values. -/
theorem length_le_of_nodup (hnodup : links.Nodup) (hthere : ∀ x ∈ links, ∃ v, s.get? x = some v) :
    links.length ≤ s.values.size := by
  have hindices : (links.map Id.index).Nodup :=
    hnodup.map fun x y hxy => by cases x; cases y; cases hxy; rfl
  have hsub : links.map Id.index ⊆ List.range s.values.size := by
    intro i hi
    obtain ⟨x, hx, rfl⟩ := List.mem_map.mp hi
    obtain ⟨v, hv⟩ := hthere x hx
    exact List.mem_range.mpr (index_lt_of_get? hv)
  simpa using (hindices.subperm hsub).length_le

namespace Builds

/-- A vector is built by one chain at most. -/
theorem unique (h : s.Builds slot links) (h' : s.Builds slot others) : links = others := by
  induction h generalizing others with
  | stop hstop =>
    cases h' with
    | stop _ => rfl
    | insert hv hinsert _ _ =>
      rw [hstop _ _ (valueIn?_eq_some.mpr ⟨rfl, hv⟩)] at hinsert
      cases hinsert
  | insert hv hinsert hoperands _ ih =>
    cases h' with
    | stop hstop =>
      rw [hstop _ _ (valueIn?_eq_some.mpr ⟨rfl, hv⟩)] at hinsert
      cases hinsert
    | insert hv' _ hoperands' h' =>
      rw [hv] at hv'
      cases hv'
      rw [hoperands] at hoperands'
      cases hoperands'
      rw [ih h']

/-- From every insertion on, the rest of the chain builds it. -/
theorem suffix (h : s.Builds slot links) (hx : x ∈ links) :
    ∃ before after, links = before ++ x :: after ∧ s.Builds (.ofValue x) (x :: after) := by
  induction h with
  | stop _ => cases hx
  | insert hv hinsert hoperands h ih =>
    rcases List.mem_cons.mp hx with rfl | hx
    · exact ⟨[], _, rfl, .insert hv hinsert hoperands h⟩
    · obtain ⟨before, after, rfl, hafter⟩ := ih hx
      exact ⟨_ :: before, after, rfl, hafter⟩

/-- No insertion is met twice: the chain would not end. -/
theorem nodup (h : s.Builds slot links) : links.Nodup := by
  induction h with
  | stop _ => exact List.nodup_nil
  | @insert id v vector rest links hv hinsert hoperands h ih =>
    refine List.nodup_cons.mpr ⟨fun hmem => ?_, ih⟩
    obtain ⟨before, after, hlinks, hafter⟩ := h.suffix hmem
    have hsame := congrArg List.length
      (hafter.unique (Builds.insert hv hinsert hoperands h))
    rw [hlinks] at hsame
    simp only [List.length_cons, List.length_append] at hsame
    omega

/-- What is met is an insertion that is there. -/
theorem insertion (h : s.Builds slot links) (hx : x ∈ links) :
    ∃ v, s.get? x = some v ∧ v.isInsertElement = true := by
  obtain ⟨_, _, _, hx⟩ := h.suffix hx
  cases hx with
  | insert hv hinsert _ _ => exact ⟨_, hv, hinsert⟩

/-- There are no more insertions than values. -/
theorem length_le (h : s.Builds slot links) : links.length ≤ s.values.size :=
  length_le_of_nodup h.nodup fun _ hx => (h.insertion hx).imp fun _ hv => hv.1

/-- A walk with steps to spare yields the chain. -/
theorem chainWithin (h : s.Builds slot links) {fuel : Nat} (hfuel : links.length < fuel) :
    s.chainWithin fuel slot = .ok links := by
  induction h generalizing fuel with
  | stop hstop =>
    obtain ⟨fuel, rfl⟩ := Nat.exists_eq_add_one.mpr (Nat.pos_of_lt_add_left hfuel)
    unfold Store.chainWithin
    split
    · rfl
    · next hin => rw [hstop _ _ hin, if_neg Bool.false_ne_true]
  | @insert id v vector rest links hv hinsert hoperands h ih =>
    obtain ⟨fuel, rfl⟩ := Nat.exists_eq_add_one.mpr (Nat.zero_lt_of_lt hfuel)
    have hrest : links.length < fuel := by simpa using hfuel
    unfold Store.chainWithin
    rw [valueIn?_eq_some.mpr ⟨rfl, hv⟩]
    dsimp only
    rw [if_pos hinsert, hoperands]
    dsimp only
    rw [ih hrest]
    rfl

end Builds

/-- What the walk yields is the chain that builds the vector. -/
theorem builds_of_chainWithin {fuel : Nat} (h : s.chainWithin fuel slot = .ok links) :
    s.Builds slot links := by
  induction fuel generalizing slot links with
  | zero => cases h
  | succ fuel ih =>
    unfold chainWithin at h
    split at h
    · next hin =>
      cases h
      exact .stop fun id v hv => nomatch hin.symm.trans hv
    · next id v hin =>
      obtain ⟨rfl, hv⟩ := valueIn?_eq_some.mp hin
      split at h
      · next hinsert =>
        split at h
        · cases h
        · next vector rest hoperands =>
          cases hrest : s.chainWithin fuel vector with
          | error f =>
            rw [hrest] at h
            cases h
          | ok links =>
            rw [hrest] at h
            cases h
            exact .insert hv hinsert hoperands (ih hrest)
      · next hother =>
        cases h
        refine .stop fun id' v' hv' => ?_
        rw [hin] at hv'
        cases hv'
        exact Bool.eq_false_iff.mpr hother

/-- The walk yields the chain, if there is one: a walk that is longer than there are values goes
round in a cycle. -/
theorem chain_eq_ok : s.chain slot = .ok links ↔ s.Builds slot links :=
  ⟨builds_of_chainWithin, fun h => h.chainWithin (Nat.lt_succ_of_le h.length_le)⟩

/-- Where the program is intact, the same insertions build a vector. -/
theorem Intact.builds_iff (h : s.Intact t) : t.Builds slot links ↔ s.Builds slot links := by
  -- contexts alone have been fixed, and whether a value is an insertion does not depend on them
  have hsame : ∀ id : ValueId, ((t.get? id).map Value.isInsertElement).getD false =
      ((s.get? id).map Value.isInsertElement).getD false :=
    h.asked (fun o => (o.map Value.isInsertElement).getD false) (fun _ _ => rfl) fun _ _ => rfl
  constructor
  · intro ht
    induction ht with
    | stop hstop =>
      refine .stop fun id v hv => ?_
      obtain ⟨rfl, ho⟩ := valueIn?_eq_some.mp hv
      obtain ⟨c, ht⟩ := h.value ho
      exact hstop id { v with context := c } (valueIn?_eq_some.mpr ⟨rfl, ht⟩)
    | @insert id v vector rest links hv hinsert hoperands _ ih =>
      have hinsert' := hsame id
      rw [hv] at hinsert'
      cases ho : s.get? id with
      | none =>
        rw [ho] at hinsert'
        cases hinsert.symm.trans hinsert'
      | some o =>
        obtain ⟨c, ht⟩ := h.value ho
        rw [hv] at ht
        cases ht
        exact .insert ho hinsert hoperands ih
  · intro hs
    induction hs with
    | @stop slot hstop =>
      refine .stop fun id v hv => ?_
      obtain ⟨rfl, ht⟩ := valueIn?_eq_some.mp hv
      have hother := hsame id
      rw [ht] at hother
      refine Eq.trans hother ?_
      cases ho : s.get? id with
      | none => rfl
      | some o => exact hstop id o (valueIn?_eq_some.mpr ⟨rfl, ho⟩)
    | insert hv hinsert hoperands _ ih =>
      obtain ⟨c, ht⟩ := h.value hv
      exact .insert ht hinsert hoperands ih

/-! ## Where an element lies -/

/-- The index at which an element is inserted. -/
def elementIndex (s : Store) (insert : ValueId) : Except Fault Int :=
  match (s.operandsOf insert)[2]? with
  | none => .error .noSuchPosition
  | some slot => do (← s.indexLiteral slot).toInt

/-- Where an element lies is found from its index alone. -/
theorem pieceOffset_eq (width : Int) (parent : Option Expression.BitPiece) (insert : ValueId) :
    s.pieceOffset width parent insert = do
      let index ← s.elementIndex insert
      match parent with
      | none => return index * width
      | some piece =>
        if index * width + width > piece.size then
          .error (.ofExcess index (← s.operandText insert) width (index * width) piece.size)
        else return index * width + piece.offset := by
  unfold pieceOffset elementIndex
  cases (s.operandsOf insert)[2]? with
  | none => rfl
  | some slot => exact (bind_assoc _ _ _).symm

/-- An element ends within the piece that the vector holds; it starts where its index says. -/
theorem pieceOffset_spec {width o : Int} {piece : Expression.BitPiece} {insert : ValueId}
    (h : s.pieceOffset width (some piece) insert = .ok o) :
    ∃ index, s.elementIndex insert = .ok index ∧ o = piece.offset + index * width ∧
      o + width ≤ piece.offset + piece.size := by
  rw [pieceOffset_eq] at h
  obtain ⟨index, hindex, h⟩ := bind_eq_ok.mp h
  dsimp only at h
  split at h
  · obtain ⟨text, _, h⟩ := bind_eq_ok.mp h
    cases h
  · next hend =>
    obtain rfl : index * width + piece.offset = o := Except.ok.inj h
    exact ⟨index, hindex, by omega, by omega⟩

/-- Where the piece that a vector holds starts in the variable. -/
def pieceStart (parent : Option Expression.BitPiece) : Int :=
  (parent.map (·.offset)).getD 0

/-- An element that ends within the piece of the vector, if the vector holds a piece, lies where its
index says. -/
theorem pieceOffset_of_fits {width index : Int} {parent : Option Expression.BitPiece}
    {insert : ValueId} (hindex : s.elementIndex insert = .ok index)
    (hfits : ∀ piece, parent = some piece → index * width + width ≤ piece.size) :
    s.pieceOffset width parent insert = .ok (pieceStart parent + index * width) := by
  rw [pieceOffset_eq]
  refine bind_eq_ok.mpr ⟨index, hindex, ?_⟩
  cases parent with
  | none => exact congrArg Except.ok (Int.zero_add _).symm
  | some piece =>
    have hend : ¬ index * width + width > piece.size := Int.not_lt.mpr (hfits piece rfl)
    exact (if_neg hend).trans (congrArg Except.ok (Int.add_comm _ _))

/-- An insertion has an index only if it has three operands. -/
theorem length_of_elementIndex {insert : ValueId} {index : Int}
    (h : s.elementIndex insert = .ok index) : 2 < (s.operandsOf insert).length := by
  unfold elementIndex at h
  cases hslot : (s.operandsOf insert)[2]? with
  | none =>
    rw [hslot] at h
    cases h
  | some slot => exact (List.getElem?_eq_some_iff.mp hslot).1

/-- An element lies somewhere only if its insertion has three operands. -/
theorem length_of_pieceOffset {width o : Int} {parent : Option Expression.BitPiece}
    {insert : ValueId} (h : s.pieceOffset width parent insert = .ok o) :
    2 < (s.operandsOf insert).length := by
  rw [pieceOffset_eq] at h
  obtain ⟨index, hindex, _⟩ := bind_eq_ok.mp h
  exact length_of_elementIndex hindex

/-- What an insertion inserts, if it inserts something, is a value. -/
def InsertsValue (s : Store) (insert : ValueId) : Prop :=
  ∀ slot, (s.operandsOf insert)[1]? = some slot → ∃ element : ValueId, slot = .ofValue element

/-- An insertion with all its operands, one of which is the element. -/
theorem InsertsValue.element {insert : ValueId} (h : s.InsertsValue insert)
    (hlength : 2 < (s.operandsOf insert).length) :
    ∃ element : ValueId, (s.operandsOf insert)[1]? = some (.ofValue element) := by
  have hslot := List.getElem?_eq_getElem (l := s.operandsOf insert) (i := 1) (by omega)
  obtain ⟨element, helement⟩ := h _ hslot
  exact ⟨element, hslot.trans (congrArg some helement)⟩

/-- What stands for an index does not depend on contexts. -/
theorem Intact.indexLiteral (h : s.Intact t) (hslot : s.HasIn slot) :
    t.indexLiteral slot = s.indexLiteral slot := by
  cases slot with
  | none => rfl
  | some ref =>
    have href := hasIn_some.mp hslot
    cases ref with
    | value v =>
      obtain ⟨a, ha⟩ := has_value_iff.mp href
      obtain ⟨c, ht⟩ := h.value ha
      unfold Store.indexLiteral
      rw [valueIn?_eq_some.mpr ⟨rfl, ha⟩, valueIn?_eq_some.mpr ⟨rfl, ht⟩]
    | node n =>
      obtain ⟨o, ho⟩ := Option.isSome_iff_exists.mp ((has_ref n).mp href)
      have hnode : t.nodeIn? (.ofNode n) = s.nodeIn? (.ofNode n) := (h.node ho).trans ho.symm
      have hnone : ∀ u : Store, u.valueIn? (.ofNode n) = none := fun _ => rfl
      unfold Store.indexLiteral
      rw [hnone, hnone, hnode]
    | _ => rfl

/-- An index that is there does not depend on contexts. -/
theorem Intact.elementIndex (h : s.Intact t) (hs : s.Closed) {insert : ValueId} {index : Int}
    (hindex : s.elementIndex insert = .ok index) : t.elementIndex insert = .ok index := by
  unfold Store.elementIndex at hindex ⊢
  rw [h.operandsOf]
  cases hslot : (s.operandsOf insert)[2]? with
  | none =>
    rw [hslot] at hindex
    cases hindex
  | some slot =>
    rw [hslot] at hindex
    obtain ⟨literal, hliteral, hindex⟩ := bind_eq_ok.mp hindex
    have hheld : s.HasIn slot := hs.hasIn_operand (List.mem_of_getElem? hslot)
    exact bind_eq_ok.mpr ⟨literal, (h.indexLiteral hheld).trans hliteral, hindex⟩

end Store

/-- What a list of questions answers, one by one. -/
theorem ok_of_mem_zip {α β : Type} {f : α → Except Fault β} {l : List α} {answers : List β}
    (h : l.mapM f = .ok answers) : ∀ p ∈ l.zip answers, f p.1 = .ok p.2 := by
  induction l generalizing answers with
  | nil => exact fun _ hp => nomatch hp
  | cons a rest ih =>
    rw [List.mapM_cons] at h
    obtain ⟨b, hb, h⟩ := bind_eq_ok.mp h
    obtain ⟨bs, hbs, h⟩ := bind_eq_ok.mp h
    obtain rfl : b :: bs = answers := Except.ok.inj h
    intro p hp
    rcases List.mem_cons.mp hp with rfl | hp
    · exact hb
    · exact ih hbs p hp

end SsaDebugInfo
