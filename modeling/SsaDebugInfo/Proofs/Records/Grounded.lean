import SsaDebugInfo.Proofs.Records.Exceeding
import SsaDebugInfo.Proofs.Touches

/-!
# Where the walk along a chain ends

The walk from a vector along the insertions that build it has no bound of its own. It ends if no
insertion leads back to itself (`Store.Grounded`): at what is no insertion, or at an insertion that
has given up its operands. New insertions are built on what is there already, and only an exchange
of operands can make an insertion lead back to itself (`Store.Redirects`).

- `Grounded.chain_ends`: where the walk ends, and what it yields.
- `Grounded.of_redirects`: an exchange of operands, as long as the new vector does not lead back.
- `Touches.vectorOf?`: what exchanges no operands of insertions leaves their vectors alone.
- `grounded_makeInsertElement`: a new insertion.
-/

namespace SsaDebugInfo

open Act Store

variable {c : Scope} {s t u : Store}

/-- The vector that an insertion inserts into, as long as it has operands. -/
def Value.vector? (v : Value) : Option Slot :=
  if v.isInsertElement then v.operands.head? else none

/-- The vector of an insertion is its first operand. -/
theorem Value.vector?_eq_some {v : Value} {vector : Slot} : v.vector? = some vector ↔
    v.isInsertElement = true ∧ ∃ rest, v.operands = vector :: rest := by
  unfold vector?
  split
  · next hinsert => rw [List.head?_eq_some_iff, and_iff_right hinsert]
  · next hother => exact ⟨nofun, fun h => absurd h.1 hother⟩

/-- Other operands of an insertion may give it another vector; nothing else gets one. -/
theorem Value.vector?_mapOperands (v : Value) (f : List Slot → List Slot) :
    (v.mapOperands f).vector? = if v.isInsertElement then (f v.operands).head? else none := by
  obtain ⟨_, shape, _, _⟩ := v
  cases shape <;> rfl

namespace Store

variable {slot vector last target : Slot} {user x : ValueId} {links : List ValueId}

/-- The vector that the insertion in a slot inserts into, as long as it has operands. -/
def vectorOf? (s : Store) (slot : Slot) : Option Slot :=
  slot.value?.bind fun v => (s.get? v).bind Value.vector?

theorem vectorOf?_ofValue (s : Store) (v : ValueId) :
    s.vectorOf? (.ofValue v) = (s.get? v).bind Value.vector? :=
  rfl

theorem vectorOf?_eq_some : s.vectorOf? slot = some vector ↔ ∃ id v rest,
    slot = .ofValue id ∧ s.get? id = some v ∧ v.isInsertElement = true ∧
      v.operands = vector :: rest := by
  constructor
  · intro h
    obtain ⟨id, hid, h⟩ := Option.bind_eq_some_iff.mp h
    obtain ⟨v, hv, h⟩ := Option.bind_eq_some_iff.mp h
    obtain ⟨hinsert, rest, hoperands⟩ := Value.vector?_eq_some.mp h
    exact ⟨id, v, rest, Slot.value?_eq_some_iff.mp hid, hv, hinsert, hoperands⟩
  · rintro ⟨id, v, rest, rfl, hv, hinsert, hoperands⟩
    rw [vectorOf?_ofValue, hv]
    exact Value.vector?_eq_some.mpr ⟨hinsert, rest, hoperands⟩

/-! ## Walks -/

/-- A walk along the vectors of insertions comes from one slot to another. -/
def ComesTo (s : Store) : Slot → Slot → Prop :=
  Relation.ReflTransGen fun slot vector => s.vectorOf? slot = some vector

/-- No walk along the vectors of insertions goes on for ever. -/
def Grounded (s : Store) : Prop :=
  WellFounded fun vector slot => s.vectorOf? slot = some vector

/-- A walk passes some insertions, one after another, and comes to a last slot. -/
inductive Passes (s : Store) : Slot → List ValueId → Slot → Prop
  | here (slot : Slot) : Passes s slot [] slot
  | step {id : ValueId} {vector last : Slot} {links : List ValueId}
    (hvector : s.vectorOf? (.ofValue id) = some vector) (h : Passes s vector links last) :
    Passes s (.ofValue id) (id :: links) last

/-- What a walk comes to it comes to past some insertions. -/
theorem ComesTo.passes (h : s.ComesTo slot target) : ∃ links, s.Passes slot links target := by
  induction h using Relation.ReflTransGen.head_induction_on with
  | refl => exact ⟨[], .here target⟩
  | head hvector _ ih =>
    obtain ⟨links, h⟩ := ih
    obtain ⟨id, _, _, rfl, _⟩ := vectorOf?_eq_some.mp hvector
    exact ⟨id :: links, .step hvector h⟩

namespace Passes

/-- A walk comes to every insertion that it passes. -/
theorem comesTo (h : s.Passes slot links last) (hx : x ∈ links) : s.ComesTo slot (.ofValue x) := by
  induction h with
  | here => cases hx
  | step hvector _ ih =>
    rcases List.mem_cons.mp hx with rfl | hx
    · exact .refl
    · exact .head hvector (ih hx)

/-- The insertions that a walk passes are there. -/
theorem insertion (h : s.Passes slot links last) (hx : x ∈ links) :
    ∃ v, s.get? x = some v ∧ v.isInsertElement = true := by
  induction h with
  | here => cases hx
  | step hvector _ ih =>
    rcases List.mem_cons.mp hx with rfl | hx
    · obtain ⟨id, v, _, hid, hv, hinsert, _⟩ := vectorOf?_eq_some.mp hvector
      obtain rfl : x = id := by simpa using hid
      exact ⟨v, hv, hinsert⟩
    · exact ih hx

/-- From where there is no vector a walk does not come away. -/
theorem of_last (h : s.Passes slot links last) (hlast : s.vectorOf? slot = none) :
    links = [] ∧ last = slot := by
  cases h with
  | here => exact ⟨rfl, rfl⟩
  | step hvector _ => exact nomatch hlast.symm.trans hvector

/-- Walking on from the last slot. -/
theorem chainWithin (h : s.Passes slot links last) (fuel : Nat) :
    s.chainWithin (fuel + links.length) slot = (links ++ ·) <$> s.chainWithin fuel last := by
  induction h with
  | here => exact (id_map _).symm
  | @step id vector last links hvector h ih =>
    obtain ⟨id', v, rest, hid, hv, hinsert, hoperands⟩ := vectorOf?_eq_some.mp hvector
    obtain rfl : id = id' := by simpa using hid
    rw [List.length_cons, ← Nat.add_assoc, Store.chainWithin, valueIn?_eq_some.mpr ⟨rfl, hv⟩]
    dsimp only
    rw [if_pos hinsert, hoperands]
    dsimp only
    rw [ih]
    cases s.chainWithin fuel last <;> rfl

end Passes

/-- Whether a walk comes from one slot to another within some steps. -/
def comesWithin (s : Store) (target : Slot) : Nat → Slot → Bool
  | 0, slot => slot = target
  | steps + 1, slot => slot = target || (s.vectorOf? slot).any (s.comesWithin target steps)

/-- Whether a walk comes from one slot to another. It passes no insertion twice, so that there are
as many steps at most as there are values. -/
def comesTo (s : Store) (slot target : Slot) : Bool :=
  s.comesWithin target s.values.size slot

/-- What is passed on the way is come to in so many steps. -/
theorem Passes.comesWithin (h : s.Passes slot links target) {steps : Nat}
    (hsteps : links.length ≤ steps) : s.comesWithin target steps slot = true := by
  induction h generalizing steps with
  | here slot =>
    cases steps with
    | zero => exact decide_eq_true rfl
    | succ steps => exact Bool.or_eq_true_iff.mpr (.inl (decide_eq_true rfl))
  | step hvector _ ih =>
    obtain ⟨steps, rfl⟩ := Nat.exists_eq_add_one.mpr (Nat.zero_lt_of_lt hsteps)
    rw [Store.comesWithin, hvector]
    exact Bool.or_eq_true_iff.mpr (.inr (ih (Nat.le_of_succ_le_succ hsteps)))

namespace Grounded

/-- No insertion leads back to itself. -/
theorem not_comesTo (h : s.Grounded) (hvector : s.vectorOf? slot = some vector) :
    ¬ s.ComesTo vector slot := by
  intro hback
  -- going round once more would go on for ever
  have hround : Relation.TransGen (fun vector slot => s.vectorOf? slot = some vector) slot slot :=
    Relation.TransGen.tail' (Relation.reflTransGen_swap.mp hback) hvector
  exact h.transGen.asymmetric _ _ hround hround

/-- Where there are no new vectors, walks end as before. -/
theorem of_fewer (h : s.Grounded)
    (hvectors : ∀ slot vector, t.vectorOf? slot = some vector → s.vectorOf? slot = some vector) :
    t.Grounded :=
  Subrelation.wf (hvectors _ _) h

/-- A grounded walk passes no insertion twice. -/
theorem nodup (h : s.Grounded) (hpasses : s.Passes slot links last) : links.Nodup := by
  induction hpasses with
  | here => exact List.nodup_nil
  | step hvector hrest ih =>
    exact List.nodup_cons.mpr ⟨fun hmem => h.not_comesTo hvector (hrest.comesTo hmem), ih⟩

/-- So it is no longer than there are values. -/
theorem length_le (h : s.Grounded) (hpasses : s.Passes slot links last) :
    links.length ≤ s.values.size :=
  length_le_of_nodup (h.nodup hpasses) fun _ hx =>
    (hpasses.insertion hx).imp fun _ hv => hv.1

/-- What a grounded walk comes to is found in as many steps as there are values. -/
theorem comesTo_of (h : s.Grounded) (hcomes : s.ComesTo slot target) :
    s.comesTo slot target = true := by
  obtain ⟨links, hpasses⟩ := hcomes.passes
  exact hpasses.comesWithin (h.length_le hpasses)

/-- Every walk ends. -/
theorem exists_last (h : s.Grounded) (slot : Slot) :
    ∃ links last, s.Passes slot links last ∧ s.vectorOf? last = none := by
  induction slot using h.induction with
  | _ slot ih =>
    cases hvector : s.vectorOf? slot with
    | none => exact ⟨[], slot, .here slot, hvector⟩
    | some vector =>
      obtain ⟨links, last, hpasses, hlast⟩ := ih vector hvector
      obtain ⟨id, _, _, rfl, _⟩ := vectorOf?_eq_some.mp hvector
      exact ⟨id :: links, last, .step hvector hpasses, hlast⟩

end Grounded

/-- There is no insertion in the slot. -/
def NoInsertion (s : Store) (slot : Slot) : Prop :=
  ∀ id v, s.valueIn? slot = some (id, v) → v.isInsertElement = false

/-- There is an insertion in the slot that has given up its operands. -/
def GivenUp (s : Store) (slot : Slot) : Prop :=
  ∃ id v, slot = .ofValue id ∧ s.get? id = some v ∧ v.isInsertElement = true ∧ v.operands = []

theorem NoInsertion.chainWithin (h : s.NoInsertion slot) (fuel : Nat) :
    s.chainWithin (fuel + 1) slot = .ok [] :=
  Builds.chainWithin (.stop h) (Nat.succ_pos fuel)

theorem GivenUp.chainWithin (h : s.GivenUp slot) (fuel : Nat) :
    s.chainWithin (fuel + 1) slot = .error .noSuchPosition := by
  obtain ⟨id, v, rfl, hv, hinsert, hoperands⟩ := h
  rw [Store.chainWithin, valueIn?_eq_some.mpr ⟨rfl, hv⟩]
  dsimp only
  rw [if_pos hinsert, hoperands]

/-- Where no vector is found, there is no insertion or one without operands. -/
theorem noInsertion_or_givenUp (h : s.vectorOf? slot = none) :
    s.NoInsertion slot ∨ s.GivenUp slot := by
  cases hin : s.valueIn? slot with
  | none => exact .inl fun id v h => nomatch hin.symm.trans h
  | some found =>
    obtain ⟨id, v⟩ := found
    obtain ⟨rfl, hv⟩ := valueIn?_eq_some.mp hin
    cases hinsert : v.isInsertElement with
    | false =>
      refine .inl fun id' v' hin' => ?_
      cases hin.symm.trans hin'
      exact hinsert
    | true =>
      rw [vectorOf?_ofValue, hv, Option.bind_some, Value.vector?, if_pos hinsert] at h
      exact .inr ⟨id, v, rfl, hv, hinsert, List.head?_eq_none_iff.mp h⟩

/-- The walk ends: where there is no insertion, and then it yields what it has passed, or at an
insertion that has given up its operands. -/
theorem Grounded.chain_ends (h : s.Grounded) (slot : Slot) :
    ∃ links last, s.Passes slot links last ∧ links.Nodup ∧
      (s.NoInsertion last ∧ s.chain slot = .ok links ∨
        s.GivenUp last ∧ s.chain slot = .error .noSuchPosition) := by
  obtain ⟨links, last, hpasses, hlast⟩ := h.exists_last slot
  obtain ⟨fuel, hfuel⟩ := Nat.exists_eq_add_of_le (h.length_le hpasses)
  have hchain : s.chain slot = (links ++ ·) <$> s.chainWithin (fuel + 1) last := by
    rw [← hpasses.chainWithin, chain, hfuel]
    congr 1
    omega
  refine ⟨links, last, hpasses, h.nodup hpasses, ?_⟩
  rcases noInsertion_or_givenUp hlast with hnone | hgiven
  · refine .inl ⟨hnone, ?_⟩
    rw [hchain, hnone.chainWithin]
    exact congrArg Except.ok links.append_nil
  · refine .inr ⟨hgiven, ?_⟩
    rw [hchain, hgiven.chainWithin]
    rfl

/-- A grounded walk ends. -/
theorem Grounded.chain_ne_endless (h : s.Grounded) (slot : Slot) :
    s.chain slot ≠ .error .endlessChain := by
  obtain ⟨links, _, _, _, ⟨_, hchain⟩ | ⟨_, hchain⟩⟩ := h.chain_ends slot
  · rw [hchain]
    nofun
  · rw [hchain]
    nofun

/-! ## Walks that go round -/

/-- A walk from the slot comes back to it. -/
def GoesRound (s : Store) (slot : Slot) : Prop :=
  ∃ vector, s.vectorOf? slot = some vector ∧ s.ComesTo vector slot

namespace GoesRound

/-- Going round goes on from the next slot. -/
theorem next (h : s.GoesRound slot) (hvector : s.vectorOf? slot = some vector) :
    s.GoesRound vector := by
  obtain ⟨vector', hvector', hback⟩ := h
  obtain rfl := Option.some_inj.mp (hvector'.symm.trans hvector)
  rcases Relation.ReflTransGen.cases_head hback with rfl | ⟨after, hafter, hback⟩
  · exact ⟨_, hvector, .refl⟩
  · exact ⟨after, hafter, hback.tail hvector⟩

/-- However far it is walked, it is not over. -/
theorem passes (hround : s.GoesRound slot) (h : s.Passes slot links last) : s.GoesRound last := by
  induction h with
  | here => exact hround
  | step hvector _ ih => exact ih (hround.next hvector)

theorem not_noInsertion (h : s.GoesRound slot) : ¬ s.NoInsertion slot := by
  intro hnone
  obtain ⟨vector, hvector, _⟩ := h
  obtain ⟨id, v, _, rfl, hv, hinsert, _⟩ := vectorOf?_eq_some.mp hvector
  exact nomatch hinsert.symm.trans (hnone id v (valueIn?_eq_some.mpr ⟨rfl, hv⟩))

/-- A walk that goes round is given up, however long it is. -/
theorem chainWithin (h : s.GoesRound slot) (fuel : Nat) :
    s.chainWithin fuel slot = .error .endlessChain := by
  induction fuel generalizing slot with
  | zero => rfl
  | succ fuel ih =>
    obtain ⟨vector, hvector, hback⟩ := h
    have hnext := next ⟨vector, hvector, hback⟩ hvector
    obtain ⟨id, v, rest, rfl, hv, hinsert, hoperands⟩ := vectorOf?_eq_some.mp hvector
    rw [Store.chainWithin, valueIn?_eq_some.mpr ⟨rfl, hv⟩]
    dsimp only
    rw [if_pos hinsert, hoperands]
    dsimp only
    rw [ih hnext]
    rfl

end GoesRound

/-! ## Exchanging operands -/

/-- At most one insertion has another vector, the one that is given. -/
structure Redirects (user : ValueId) (new : Option Slot) (s t : Store) : Prop where
  others : ∀ slot, slot ≠ .ofValue user → t.vectorOf? slot = s.vectorOf? slot
  vector : ∀ vector, t.vectorOf? (.ofValue user) = some vector →
    s.vectorOf? (.ofValue user) = some vector ∨ new = some vector

/-- Walks still end if the new vector of an insertion does not lead back to it. -/
theorem Grounded.of_redirects {new : Option Slot} (h : s.Grounded) (hst : s.Redirects user new t)
    (hnew : ∀ vector, new = some vector → ¬ s.ComesTo vector (.ofValue user)) : t.Grounded := by
  -- a walk that does not come to the insertion is the walk that it was
  have haway : ∀ slot, ¬ s.ComesTo slot (.ofValue user) →
      Acc (fun vector slot => t.vectorOf? slot = some vector) slot := by
    intro slot
    induction slot using h.induction with
    | _ slot ih =>
      refine fun haway => ⟨_, fun vector hvector => ?_⟩
      rw [hst.others slot fun heq => haway (heq ▸ .refl)] at hvector
      exact ih vector hvector fun hcomes => haway (.head hvector hcomes)
  have huser : Acc (fun vector slot => t.vectorOf? slot = some vector) (.ofValue user) := by
    refine ⟨_, fun vector hvector => haway vector ?_⟩
    rcases hst.vector vector hvector with hold | hnew'
    · exact h.not_comesTo hold
    · exact hnew vector hnew'
  refine ⟨fun slot => ?_⟩
  induction slot using h.induction with
  | _ slot ih =>
    by_cases heq : slot = .ofValue user
    · exact heq ▸ huser
    · exact ⟨_, fun vector hvector => ih vector (hst.others slot heq ▸ hvector)⟩

/-- Whether a user is an insertion to which a walk from a vector comes. -/
def leadsBack (s : Store) (user : ValueId) (vector : Slot) : Bool :=
  (s.get? user).any Value.isInsertElement && s.comesTo vector (.ofValue user)

/-- A vector that does not lead back to the insertion never comes to it. -/
theorem Grounded.not_comesTo_of (h : s.Grounded)
    (hinsert : (s.get? user).any Value.isInsertElement = true)
    (hback : s.leadsBack user vector = false) : ¬ s.ComesTo vector (.ofValue user) := by
  intro hcomes
  rw [leadsBack, hinsert, h.comesTo_of hcomes] at hback
  cases hback

theorem grounded_initial : Store.initial.Grounded := by
  refine ⟨fun slot => ⟨_, fun vector hvector => ?_⟩⟩
  obtain ⟨_, _, _, _, hv, _⟩ := vectorOf?_eq_some.mp hvector
  exact nomatch (get?_initial _ (by decide)).symm.trans hv

/-- A collection brings no vectors. -/
theorem Grounded.collect (h : s.Grounded) (roots : List Slot) : (s.collect roots).Grounded := by
  refine h.of_fewer fun slot vector hvector => ?_
  obtain ⟨v, _, _, rfl, _⟩ := vectorOf?_eq_some.mp hvector
  rw [vectorOf?_ofValue, asked_collect (fun o : Option (Object .value) => o.bind Value.vector?)
    (by decide)] at hvector
  split at hvector
  · exact hvector
  · cases hvector

/-- The vector of an insertion is there. -/
theorem Closed.hasIn_vector (hs : s.Closed) (h : s.vectorOf? slot = some vector) :
    s.HasIn vector := by
  obtain ⟨id, v, rest, rfl, hv, _, hoperands⟩ := vectorOf?_eq_some.mp h
  exact (hs.holdsOnly hv).operands vector (hoperands ▸ List.mem_cons_self)

/-- No walk from what is there comes to what is not. -/
theorem Closed.not_comesTo (hs : s.Closed) (hslot : s.HasIn slot) (hx : ¬ s.Has (.value x)) :
    ¬ s.ComesTo slot (.ofValue x) := by
  intro hcomes
  have hin : ∀ last, s.ComesTo slot last → s.HasIn last := by
    intro last hlast
    cases hlast with
    | refl => exact hslot
    | tail _ hvector => exact hs.hasIn_vector hvector
  exact hx (hasIn_some.mp (hin _ hcomes))

end Store

/-! ## What actions do to vectors -/

/-- What exchanges no operands of insertions leaves their vectors alone. -/
theorem Touch.vectorOf? (h : Touch c s t) (hrebuilds : c.rebuilds = false) (slot : Slot) :
    t.vectorOf? slot = s.vectorOf? slot := by
  have hchanged : ∀ v w : Value, v.Changes c w → w.vector? = v.vector? := by
    intro v w hvw
    have hinsert : w.isInsertElement = v.isInsertElement := by
      rw [← w.isInsertElement_core, hvw.core, v.isInsertElement_core]
    unfold Value.vector?
    rw [hinsert]
    split
    · next hv => rw [hvw.built hrebuilds hv]
    · rfl
  refine congrArg (fun f => slot.value?.bind f) (funext fun x => ?_)
  cases h with
  | annotate => rfl
  | @change kind id f hf =>
    cases kind with
    | value =>
      exact asked_modify (fun o : Option (Object .value) => o.bind Value.vector?)
        (fun o _ => hchanged o (f o) (hf o)) x
    | _ => rfl
  | @create kind object hnew =>
    cases kind with
    | value =>
      rw [get?_push]
      split
      · next hx =>
        -- a new value has no operands yet
        have hnone : Value.vector? object = none := by
          unfold Value.vector?
          rw [hnew.2.2]
          split <;> rfl
        rw [hx, get?_nextId]
        exact hnone
      · rfl
    | _ => rfl
  | addHandle => rfl
  | index => rfl
  | describe d => cases d <;> rfl

theorem Touches.vectorOf? (h : Touches c s t) (hrebuilds : c.rebuilds = false) (slot : Slot) :
    t.vectorOf? slot = s.vectorOf? slot :=
  h.preserves (P := fun t => t.vectorOf? slot = s.vectorOf? slot)
    (fun ht htouch => (htouch.vectorOf? hrebuilds slot).trans ht) rfl

/-- What exchanges no operands of insertions leaves walks grounded. -/
theorem Touches.grounded (h : Touches c s t) (hrebuilds : c.rebuilds = false) (hs : s.Grounded) :
    t.Grounded :=
  hs.of_fewer fun slot _ hvector => h.vectorOf? hrebuilds slot ▸ hvector

theorem Touches.comesTo (h : Touches c s t) (hrebuilds : c.rebuilds = false) {slot target : Slot}
    (hcomes : t.ComesTo slot target) : s.ComesTo slot target :=
  Relation.ReflTransGen.mono (fun x _ hvector => h.vectorOf? hrebuilds x ▸ hvector) _ _ hcomes

section Exchanges

variable {user : ValueId} {operands : List Slot} {new : Option Slot} {operand : Slot} {index : Int}

theorem Store.Redirects.after (h : t.Redirects user new u) (hst : Touches c s t)
    (hrebuilds : c.rebuilds = false) : s.Redirects user new u where
  others slot hne := (h.others slot hne).trans (hst.vectorOf? hrebuilds slot)
  vector vector hvector := hst.vectorOf? hrebuilds (.ofValue user) ▸ h.vector vector hvector

theorem Store.Redirects.touches (h : s.Redirects user new t) (htu : Touches c t u)
    (hrebuilds : c.rebuilds = false) : s.Redirects user new u where
  others slot hne := (htu.vectorOf? hrebuilds slot).trans (h.others slot hne)
  vector vector hvector := h.vector vector (htu.vectorOf? hrebuilds (.ofValue user) ▸ hvector)

/-- Other operands redirect the walk at their user, if at all, and to their first one. -/
theorem redirects_exchange {f : List Slot → List Slot}
    (hnew : ∀ o vector, s.get? user = some o → (f o.operands).head? = some vector →
      o.operands.head? = some vector ∨ new = some vector) :
    s.Redirects user new (s.modify user (·.mapOperands f)) where
  others slot hne := by
    refine Option.bind_congr fun v hv => ?_
    obtain rfl := Slot.value?_eq_some_iff.mp hv
    rw [get?_modify_other _ _ fun heq : v = user => hne (congrArg Slot.ofValue heq)]
  vector vector hvector := by
    rw [vectorOf?_ofValue, get?_modify, if_pos rfl] at hvector
    obtain ⟨w, hw, hvector⟩ := Option.bind_eq_some_iff.mp hvector
    obtain ⟨o, ho, rfl⟩ := Option.map_eq_some_iff.mp hw
    rw [vectorOf?_ofValue, ho, Option.bind_some]
    rw [Value.vector?_mapOperands] at hvector
    unfold Value.vector?
    split at hvector
    · next hinsert =>
      rw [if_pos hinsert]
      exact hnew o vector ho hvector
    · cases hvector

/-- Exchanging the operands of a user redirects the walk to the first new one. -/
theorem redirects_setOperands (user : ValueId) (operands : List Slot) :
    s.Redirects user operands.head? ((setOperands user operands).run s).2 := by
  have hsame : s.Redirects user operands.head? s := ⟨fun _ _ => rfl, fun _ h => .inl h⟩
  have hdrop : ∀ l : List Slot, (l.forM (dropUse user)).Only (Touches .quiet) :=
    fun _ => only_forM fun operand _ => touches_dropUse user operand
  have hadd : (operands.eraseDups.forM (addUse user)).Only (Touches .quiet) :=
    only_forM fun operand _ => touches_addUse user operand
  refine Ends.left (P := s.Redirects user operands.head?) ?_
  refine Reads.bind_ends reads_fetch (fun _ => hsame) fun o _ => ?_
  refine Ends.bind (((hdrop _).ends s).mono (fun _ _ ht => ht)
    fun _ _ ht => hsame.touches ht rfl) fun _ t ht => ends_update_bind ?_
  have hput : t.Redirects user operands.head? (t.modify user (·.mapOperands fun _ => operands)) :=
    redirects_exchange fun _ _ _ h => .inr h
  have hput := hput.after ht rfl
  exact (hadd.ends _).mono (fun _ _ hu => hput.touches hu rfl) fun _ _ hu => hput.touches hu rfl

/-- Exchanging one operand redirects the walk only at the first position. -/
theorem redirects_setOperand (user : ValueId) (index : Int) (operand : Slot) :
    s.Redirects user
      (if position? (s.operandsOf user).length index = some 0 then some operand else none)
      ((setOperand user index operand).run s).2 := by
  generalize hnew : (if position? (s.operandsOf user).length index = some 0 then some operand
    else none) = new
  have hsame : s.Redirects user new s := ⟨fun _ _ => rfl, fun _ h => .inl h⟩
  refine Ends.left (P := s.Redirects user new) ?_
  refine Reads.bind_ends reads_fetch (fun _ => hsame) fun o ho => ?_
  rw [operandsOf_eq ho] at hnew
  dsimp only
  split
  · exact ends_throw hsame
  · next place hplace =>
    refine ends_update_bind ?_
    have hput : s.Redirects user new
        (s.modify user (·.mapOperands fun _ => o.operands.set place operand)) := by
      refine redirects_exchange fun o' vector ho' h => ?_
      obtain rfl := Option.some_inj.mp (ho.symm.trans ho')
      cases place with
      | zero =>
        rw [if_pos hplace] at hnew
        have hlt := position?_eq_some hplace
        rw [List.head?_eq_getElem?, List.getElem?_set_self hlt] at h
        exact .inr (hnew ▸ h)
      | succ place =>
        rw [List.head?_eq_getElem?, List.getElem?_set_ne (Nat.succ_ne_zero place)] at h
        exact .inl (List.head?_eq_getElem?.trans h)
    have huses := touches_moveUse (c := .quiet) user o.operands[place]?.join
      (o.operands.set place operand) operand
    exact (huses.ends _).mono (fun _ _ hu => hput.touches hu rfl) fun _ _ hu => hput.touches hu rfl

/-- An insertion that gets another vector must not be led back to. -/
theorem grounded_setOperands (h : s.Grounded)
    (hnew : ∀ vector, operands.head? = some vector → s.leadsBack user vector = false) :
    ((setOperands user operands).run s).2.Grounded := by
  cases hinsert : (s.get? user).any Value.isInsertElement with
  | true =>
    refine h.of_redirects (redirects_setOperands user operands) fun vector hvector => ?_
    exact h.not_comesTo_of hinsert (hnew vector hvector)
  | false =>
    exact (touches_setOperands_of (c := .quiet) (.of_any hinsert) operands).grounded rfl h

/-- Walks stay grounded if a new vector does not lead back to the insertion. -/
theorem grounded_setOperand (h : s.Grounded)
    (hnew : position? (s.operandsOf user).length index = some 0 →
      s.leadsBack user operand = false) :
    ((setOperand user index operand).run s).2.Grounded := by
  cases hinsert : (s.get? user).any Value.isInsertElement with
  | true =>
    refine h.of_redirects (redirects_setOperand user index operand) fun vector hvector => ?_
    split at hvector
    · next hplace =>
      obtain rfl := Option.some_inj.mp hvector
      exact h.not_comesTo_of hinsert (hnew hplace)
    · cases hvector
  | false =>
    exact (touches_setOperand_of (c := .quiet) (.of_any hinsert) index operand).grounded rfl h

end Exchanges

/-! ## Making and erasing insertions -/

/-- A new insertion is passed by no walk that there was, so that walks stay grounded. -/
theorem grounded_makeInsertElement (hs : s.Closed) (h : s.Grounded) {vector : Slot}
    (hvector : s.HasIn vector) (element index : Slot) (name : String) :
    ((makeInsertElement vector element index name).run s).2.Grounded := by
  have hmake : ∀ type, (makeInstruction .insertElement [vector, element, index] type name).Ends s
      (fun _ t => t.Grounded) fun _ t => t.Grounded := by
    intro type
    let object : Value := { type, shape := .instruction { name } [] { opcode := .insertElement } }
    have hpush : Touches .quiet s (s.push .value object) := .single (.create ⟨rfl, rfl, rfl⟩)
    -- nothing that was there leads to what has come just now
    have haway : ¬ (s.push .value object).ComesTo vector (.ofValue (s.nextId .value)) := by
      intro hcomes
      have hnew : ¬ s.Has (.value (s.nextId .value)) := fun hhas => @ne_nextId .value s _ hhas rfl
      exact hs.not_comesTo hvector hnew (hpush.comesTo rfl hcomes)
    have hset := (hpush.grounded rfl h).of_redirects
      (redirects_setOperands (s.nextId .value) [vector, element, index]) fun y hy =>
        Option.some_inj.mp hy ▸ haway
    exact ends_run_bind rfl ((Ends.of_left hset).bind fun _ _ ht => ends_pure ht)
  refine Ends.left (P := Store.Grounded) ?_
  refine Reads.bind_ends reads_typeIn (fun _ => h) fun type _ => ?_
  split
  · exact ends_throw h
  · refine Reads.bind_ends reads_typeIn (fun _ => h) fun _ _ => ?_
    refine Reads.bind_ends reads_require (fun _ => h) fun _ _ => ?_
    refine Reads.bind_ends reads_requireValue (fun _ => h) fun v _ => ?_
    split
    · exact hmake _
    · exact hmake _
    · exact ends_throw h

/-- Erasing an insertion only cuts walks off. -/
theorem grounded_erase (h : s.Grounded) (x : ValueId) : ((erase x).run s).2.Grounded := by
  let scope : Scope := { places := true, rebuilds := false, nodes := fun _ => True }
  have hremove : (removeFromParent x).Only (Touches scope) :=
    (places_touches rfl).removeFromParent x
  refine Ends.left (P := Store.Grounded) ?_
  refine Ends.bind ((hremove.ends s).mono (fun _ _ ht => ht.grounded rfl h)
    fun _ _ ht => ht.grounded rfl h) fun _ t ht => ?_
  refine Ends.bind (Ends.of_left (ht.of_redirects (redirects_setOperands x []) nofun))
    fun _ u hu => ?_
  refine ends_get_bind ?_
  exact (Reads.ends reads_require).mono (fun _ _ h => h.1 ▸ hu) fun _ _ h => h.1 ▸ hu

/-! ## Scattering -/

/-- Where a list faults, one of its entries does. -/
theorem fault_mapM {α β : Type} {f : α → Except Fault β} {l : List α} {e : Fault}
    (h : l.mapM f = .error e) : ∃ a ∈ l, f a = .error e := by
  induction l with
  | nil => cases h
  | cons a rest ih =>
    rw [List.mapM_cons] at h
    cases ha : f a with
    | error e' =>
      rw [ha] at h
      cases h
      exact ⟨a, List.mem_cons_self, ha⟩
    | ok b =>
      rw [ha] at h
      cases hrest : rest.mapM f with
      | error e' =>
        rw [hrest] at h
        cases h
        obtain ⟨b, hb, hfault⟩ := ih hrest
        exact ⟨b, List.mem_cons_of_mem a hb, hfault⟩
      | ok bs =>
        rw [hrest] at h
        cases h

/-- Types have a size, or take no storage, or the target does not know them. -/
theorem Layout.sizeInBits_ne_endless (layout : Layout) (type : Ty) :
    (layout.sizeInBits type).1 ≠ .error .endlessChain := by
  -- remembering an answer does not change it
  have hremember : ∀ (key : String) (found : Except Fault Int × List (String × Int)),
      found.1 ≠ .error .endlessChain → (remember key found).1 ≠ .error .endlessChain := by
    rintro key ⟨_ | _, cache⟩ h
    · exact h
    · intro h
      cases h
  unfold sizeInBits
  show (query layout.target.bytes? type layout.cache).1 ≠ _
  fun_induction query layout.target.bytes? type layout.cache with
  | case1 =>
    intro h
    cases h
  | case2 cache count element _ result cache' hquery ih =>
    refine hremember _ _ ?_
    rw [hquery] at ih
    cases result with
    | ok bits =>
      intro h
      cases h
    | error fault => exact fun h => ih h
  | case3 =>
    intro h
    cases h
  | case4 =>
    refine hremember _ _ ?_
    unfold Ty.leafSizeInBits
    split
    case h_6 =>
      split <;>
      · intro h
        cases h
    all_goals
      intro h
      cases h

theorem Store.pieceOffset_ne_endless (s : Store) (width : Int)
    (parent : Option Expression.BitPiece) (insert : ValueId) :
    s.pieceOffset width parent insert ≠ .error .endlessChain := by
  have hindex : Silent (s.elementIndex insert) := by
    unfold elementIndex
    split
    · exact silent_error rfl
    · exact (s.silent_indexLiteral _).bind silent_toInt
  rw [pieceOffset_eq]
  cases hanswer : s.elementIndex insert with
  | error f => exact fun h => hindex.ne_endless hanswer (Except.error.inj h)
  | ok index =>
    cases parent with
    | none =>
      intro h
      cases h
    | some piece =>
      show (if piece.size < index * width + width then _ else _ : Except Fault Int) ≠ _
      split
      · cases htext : s.operandText insert with
        | error f =>
          exact fun h => (s.silent_operandText insert).ne_endless htext (Except.error.inj h)
        | ok text =>
          intro h
          have hfault := Except.error.inj h
          unfold Fault.ofExcess at hfault
          split at hfault
          · cases hfault
          · cases hfault
      · intro h
        cases h

variable {r v : ValueId} {slot : Slot}

/-- Planning walks along the insertions where it has started from. -/
theorem planScatter_ne_endless (hs : s.Closed) (h : s.Grounded) (type : Ty) :
    (planScatter slot r type).Ends s (fun _ _ => True) fun f _ => f ≠ .endlessChain := by
  have hfound : ∀ {α : Type} (o : Option α) (f : Fault), found o = .error f → f ≠ .endlessChain :=
    fun o _ => (silent_found o).ne_endless
  refine Ends.bind (((touches_sizeForRecord r type).ends s).and (Ends.run _ s) |>.mono
    (fun _ _ ht => ht.1.grounded (c := .quiet) rfl h) ?_) fun width t ht => ?_
  · rintro f t ⟨_, hrun⟩ rfl
    have hsize := sizeForRecord_answer (r := r) hs type
    rw [hrun] at hsize
    exact Layout.sizeInBits_ne_endless _ _ hsize.symm
  · refine ends_ask_bind (hfound _) fun binding _ => ?_
    refine ends_ask_bind (hfound _) fun loc _ => ?_
    refine ends_ask_bind (fun _ => (t.silent_parentPiece _).ne_endless) fun parent _ => ?_
    refine ends_ask_bind (fun f hf heq => ht.chain_ne_endless slot (heq ▸ hf)) fun inserts _ => ?_
    refine ends_ask_bind (fun f hf heq => ?_) fun offsets _ => ends_pure trivial
    obtain ⟨insert, _, hoffset⟩ := fault_mapM hf
    exact t.pieceOffset_ne_endless width parent insert (heq ▸ hoffset)

/-- Where walks along vectors end, so does every scattering. -/
theorem scatter_ne_endless (hs : s.Sound) (h : s.Grounded) (slot : Slot) :
    (scatter slot).Ends s (fun _ _ => True) fun f _ => f ≠ .endlessChain := by
  by_cases hvector : ∃ v o type, slot = .ofValue v ∧ s.get? v = some o ∧
      o.isInsertElement = true ∧ o.type.vectorElement? = some type
  · obtain ⟨v, o, type, rfl, ho, hinsert, htype⟩ := hvector
    unfold Ends
    rw [run_scatter ho hinsert htype]
    refine Ends.bind (((touches_findRecord (c := .quiet) (.ofValue v)).ends s).and
      (keeps_findRecord hs (.ofValue v)).ends |>.and (Ends.run _ s) |>.mono (fun _ _ ht => ht.1) ?_)
      fun r t ⟨ht, hkept, _⟩ => ?_
    · rintro f t ⟨_, hrun⟩
      exact (silent_findRecord _ s).ne_endless (congrArg Prod.fst hrun)
    · cases r with
      | none => exact ends_pure trivial
      | some r =>
        have hclosed := (hkept.sound hs).closed
        refine (planScatter_ne_endless hclosed (ht.grounded rfl h) type).bind fun plan u _ => ?_
        refine (Ends.run _ u).mono (fun _ _ _ => trivial) fun f w hrun => ?_
        exact (silent_carryOut plan r v u).ne_endless (congrArg Prod.fst hrun)
  · unfold scatter
    refine ends_get_bind ?_
    split
    · exact ends_pure trivial
    · next v o hin =>
      obtain ⟨rfl, ho⟩ := valueIn?_eq_some.mp hin
      split
      · next type hinsert htype => exact absurd ⟨v, o, type, rfl, ho, hinsert, htype⟩ hvector
      · exact ends_pure trivial

end SsaDebugInfo
