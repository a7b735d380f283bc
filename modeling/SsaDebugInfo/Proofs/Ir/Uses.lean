import SsaDebugInfo.Proofs.Act.Conduct
import SsaDebugInfo.Proofs.Store.Users

/-!
# Operands and uses are kept in step

Changing the operands of a user concerns no other user (`Store.Reuses`), whether it faults or not.
It does not fault if the user agrees with its operands before and all new operands are values; then
the user agrees with its operands afterwards.

- `keeps_setOperands`, `keeps_setOperand`, `keeps_pushOperand`: other users are left alone.
- `setOperands_agrees`, `setOperand_agrees`, `pushOperand_agrees`: the user stays in step.
-/

namespace SsaDebugInfo

namespace Store

variable {s t r : Store} {user : ValueId} {touched : Slot → Prop}

/-! ## Changing the operands of one user -/

/-- A change that concerns the operands of one user and its place among the uses of values, as far
as these are touched. -/
structure Reuses (user : ValueId) (touched : Slot → Prop) (s t : Store) : Prop
    extends s.SameTables t where
  closed : s.Closed → t.Closed
  stays : ∀ {v : ValueId} {a : Value}, s.get? v = some a →
    ∃ b : Value, t.get? v = some b ∧ a.Stays b
  instructionsOf : ∀ b, t.instructionsOf b = s.instructionsOf b
  untouched : ∀ v, ¬ touched (.ofValue v) → t.usesOf v = s.usesOf v
  once : (∀ v, (s.usesOf v).Nodup) → ∀ v, (t.usesOf v).Nodup
  mem_usesOf : ∀ u, u ≠ user → ∀ v, u ∈ t.usesOf v ↔ u ∈ s.usesOf v
  operandsOf : ∀ u, u ≠ user → t.operandsOf u = s.operandsOf u
  isRecord : ∀ d, t.isRecord d = s.isRecord d

theorem Reuses.refl (user : ValueId) (touched : Slot → Prop) (s : Store) :
    Reuses user touched s s where
  toSameTables := .refl s
  closed hs := hs
  stays h := ⟨_, h, .refl _⟩
  instructionsOf _ := rfl
  untouched _ _ := rfl
  once hs := hs
  mem_usesOf _ _ _ := Iff.rfl
  operandsOf _ _ := rfl
  isRecord _ := rfl

theorem Reuses.trans (hst : Reuses user touched s t) (htr : Reuses user touched t r) :
    Reuses user touched s r where
  toSameTables := hst.toSameTables.trans htr.toSameTables
  closed hs := htr.closed (hst.closed hs)
  stays h := by
    obtain ⟨b, hb, hab⟩ := hst.stays h
    obtain ⟨c, hc, hbc⟩ := htr.stays hb
    exact ⟨c, hc, hab.trans hbc⟩
  instructionsOf b := (htr.instructionsOf b).trans (hst.instructionsOf b)
  untouched v hv := (htr.untouched v hv).trans (hst.untouched v hv)
  once hs := htr.once (hst.once hs)
  mem_usesOf u hu v := (htr.mem_usesOf u hu v).trans (hst.mem_usesOf u hu v)
  operandsOf u hu := (htr.operandsOf u hu).trans (hst.operandsOf u hu)
  isRecord d := (htr.isRecord d).trans (hst.isRecord d)

/-- Other users agree with their operands as before. -/
theorem Reuses.agrees (h : Reuses user touched s t) {u : ValueId} (hne : u ≠ user)
    (hu : s.Agrees u) : t.Agrees u where
  mem_iff v := by
    rw [h.mem_usesOf u hne, h.operandsOf u hne]
    exact hu.mem_iff v
  value hmem := by
    rw [h.operandsOf u hne] at hmem
    exact hu.value hmem

/-- The store where a value has other uses. -/
def mapUses (s : Store) (v : ValueId) (f : List ValueId → List ValueId) : Store :=
  s.modify v fun o => { o with uses := f o.uses }

/-- The store where a user has other operands. -/
def putOperands (s : Store) (user : ValueId) (operands : List Slot) : Store :=
  s.modify user (·.mapOperands fun _ => operands)

section MapUses

variable {v : ValueId} {f : List ValueId → List ValueId}

theorem get?_mapUses (v' : ValueId) :
    (s.mapUses v f).get? v' =
      if v' = v then (s.get? v').map fun o => { o with uses := f o.uses } else s.get? v' := by
  rw [mapUses, get?_modify]

/-- Changing the uses of a value shows in its users alone. -/
theorem usesOf_mapUses (hv : s.Has (.value v)) (v' : ValueId) :
    (s.mapUses v f).usesOf v' = if v' = v then f (s.usesOf v') else s.usesOf v' := by
  rw [usesOf, get?_mapUses]
  split
  · next h =>
    subst h
    obtain ⟨o, ho⟩ := has_value_iff.mp hv
    rw [usesOf_eq ho, ho]
    rfl
  · rfl

/-- Changing the uses of a value shows in no operands. -/
theorem operandsOf_mapUses (u : ValueId) : (s.mapUses v f).operandsOf u = s.operandsOf u :=
  asked_modify (fun o : Option (Object .value) => (o.map Value.operands).getD [])
    (fun _ _ => by rfl) u

theorem isRecord_mapUses (d : ValueId) : (s.mapUses v f).isRecord d = s.isRecord d :=
  asked_modify (fun o : Option (Object .value) => (o.map Value.isDebugValue).getD false)
    (fun _ _ => by rfl) d

/-- Moving a user into the uses of a value or out of them concerns no other user. -/
theorem reuses_mapUses (hv : s.Has (.value v)) (huser : s.Has (.value user))
    (htouched : touched (.ofValue v)) (hf : ∀ l u, u ≠ user → (u ∈ f l ↔ u ∈ l))
    (hnodup : ∀ l, l.Nodup → (f l).Nodup) : Reuses user touched s (s.mapUses v f) where
  toExtends := Extends.modify v _
  entries := by
    unfold mapUses
    refine Pointwise.modify SameEntries.refl v fun o _ => ?_
    exact ⟨rfl, fun _ h => h⟩
  closed hs := by
    refine hs.modify fun o ho => Value.holdsOnly_iff.mp ?_
    -- what `f` may add to the uses is the user, and all others were uses before
    have huses : ∀ u ∈ f o.uses, s.HasIn (.ofValue u) := by
      intro u hu
      by_cases hne : u = user
      · exact hasIn_some.mpr (hne ▸ huser)
      · exact (hs.holdsOnly ho).uses u ((hf o.uses u hne).mp hu)
    exact { hs.holdsOnly ho with uses := huses }
  stays {v' a} ha := by
    rw [get?_mapUses]
    split
    · rw [ha]
      exact ⟨{ a with uses := f a.uses }, rfl, ⟨rfl, rfl, rfl⟩, rfl, rfl, rfl⟩
    · exact ⟨a, ha, .refl a⟩
  instructionsOf b :=
    asked_modify (fun o : Option (Object .value) => (o.map Value.instructions).getD [])
      (fun _ _ => by rfl) b
  untouched v' hv' := by
    have hne : v' ≠ v := by
      rintro rfl
      exact hv' htouched
    rw [usesOf_mapUses hv, if_neg hne]
  once hs v' := by
    rw [usesOf_mapUses hv]
    split
    · exact hnodup _ (hs v')
    · exact hs v'
  mem_usesOf u hu v' := by
    rw [usesOf_mapUses hv]
    split
    · exact hf _ u hu
    · exact Iff.rfl
  operandsOf u _ := operandsOf_mapUses u
  isRecord d := isRecord_mapUses d

end MapUses

section PutOperands

variable {operands : List Slot}

theorem get?_putOperands (u : ValueId) :
    (s.putOperands user operands).get? u =
      if u = user then (s.get? u).map (·.mapOperands fun _ => operands) else s.get? u := by
  rw [putOperands, get?_modify]

/-- The operands that a user holds show in no uses. -/
theorem usesOf_putOperands (v : ValueId) :
    (s.putOperands user operands).usesOf v = s.usesOf v :=
  asked_modify (fun o : Option (Object .value) => (o.map Value.uses).getD [])
    (fun o _ => Value.uses_mapOperands o _) v

/-- The operands of a user are what has been put there; those of others stay. -/
theorem operandsOf_putOperands {o : Value} (ho : s.get? user = some o) (huser : o.isUser = true)
    (u : ValueId) :
    (s.putOperands user operands).operandsOf u = if u = user then operands else s.operandsOf u := by
  rw [operandsOf, get?_putOperands]
  split
  · next h =>
    rw [h, ho, Option.map_some, Option.map_some, Value.operands_mapOperands huser]
    rfl
  · rfl

theorem isRecord_putOperands (d : ValueId) :
    (s.putOperands user operands).isRecord d = s.isRecord d :=
  asked_modify (fun o : Option (Object .value) => (o.map Value.isDebugValue).getD false)
    (fun o _ => Value.isDebugValue_mapOperands o _) d

/-- Exchanging the operands of a user for others that are there concerns no other user. -/
theorem reuses_putOperands (hoperands : ∀ o ∈ operands, s.HasIn o) :
    Reuses user touched s (s.putOperands user operands) where
  toExtends := Extends.modify user _
  entries := by
    unfold putOperands
    refine Pointwise.modify SameEntries.refl user fun o _ => ⟨?_, fun c hc => ?_⟩
    · exact Value.wrapped?_mapOperands o _
    · exact (Value.context_mapOperands o _).trans hc
  closed hs := by
    refine hs.modify fun o ho => Value.holdsOnly_iff.mp ?_
    exact (hs.holdsOnly ho).mapOperands hoperands
  stays {v a} ha := by
    rw [get?_putOperands]
    split
    · rw [ha]
      exact ⟨_, rfl, a.stays_mapOperands _⟩
    · exact ⟨a, ha, .refl a⟩
  instructionsOf b :=
    asked_modify (fun o : Option (Object .value) => (o.map Value.instructions).getD [])
      (fun o _ => Value.instructions_mapOperands o _) b
  untouched v _ := usesOf_putOperands v
  once hs v := by
    rw [usesOf_putOperands]
    exact hs v
  mem_usesOf u _ v := by rw [usesOf_putOperands]
  operandsOf u hu := by
    rw [operandsOf, get?_putOperands, if_neg hu, operandsOf]
  isRecord d := isRecord_putOperands d

end PutOperands

end Store

/-! ## The actions -/

/-- The users that a value has once one more takes it as an operand. -/
def enterUses (user : ValueId) (uses : List ValueId) : List ValueId :=
  if uses.contains user then uses else uses ++ [user]

/-- A user that is entered is among the uses, with those that were. -/
theorem mem_enterUses {user u : ValueId} {uses : List ValueId} :
    u ∈ enterUses user uses ↔ u ∈ uses ∨ u = user := by
  unfold enterUses
  split
  · next h =>
    constructor
    · exact .inl
    · rintro (hu | rfl)
      · exact hu
      · exact List.contains_iff_mem.mp h
  · simp

/-- A user is entered once. -/
theorem nodup_enterUses {user : ValueId} {uses : List ValueId} (h : uses.Nodup) :
    (enterUses user uses).Nodup := by
  unfold enterUses
  split
  · exact h
  · next hnot =>
    rw [List.nodup_append]
    refine ⟨h, List.pairwise_singleton _ _, ?_⟩
    rintro a ha b hb rfl
    rw [List.mem_singleton] at hb
    exact hnot (List.contains_iff_mem.mpr (hb ▸ ha))

/-- What may happen when the operands of a user change: no other user is concerned, and no name. -/
def Conduct.reuses (user : ValueId) (touched : Slot → Prop) : Conduct where
  change := Store.Reuses user touched
  fault _ f := f ≠ .nameNotRegistered
  refl := .refl user touched
  trans := .trans
  fault_of_change _ h := h
  plain h := by
    rintro rfl
    cases h

open Act

/-- A position is within the list, also when it is counted from the end. -/
theorem position?_eq_some {length : Nat} {index : Int} {place : Nat}
    (h : position? length index = some place) : place < length := by
  unfold position? at h
  dsimp only at h
  -- from whichever end the place was counted, only its bounds are checked
  generalize (if index < 0 then index + (length : Int) else index) = p at h
  split at h
  · cases h
    omega
  · cases h

section Keeps

variable {s : Store} {user : ValueId} {touched : Slot → Prop}

/-- Adding a use looks at the operand as a value and enters the user there. -/
theorem addUse_eq (user : ValueId) (operand : Slot) : addUse user operand = (do
    let id ← valueIn operand
    modify fun s => s.mapUses id (enterUses user)) := by
  -- the test for the user is moved from around the value into the list of its uses
  have hfun : (fun v : Value => if user ∈ v.uses then v else { v with uses := v.uses ++ [user] }) =
      fun v => { v with uses := enterUses user v.uses } := by
    funext v
    unfold enterUses
    simp only [List.contains_iff_mem]
    split <;> rfl
  unfold addUse
  rw [hfun]
  rfl

/-- A use is added at a value that is touched. -/
theorem keeps_addUse (huser : s.Has (.value user)) {operand : Slot} (htouched : touched operand) :
    (addUse user operand).Keeps (.reuses user touched) s fun _ _ => True := by
  rw [addUse_eq]
  refine reads_valueIn.bind fun v ⟨heq, hv⟩ => ?_
  subst heq
  refine (keeps_modify ?_).any
  refine Store.reuses_mapUses (Store.has_value_iff.mpr hv) huser htouched (fun l u hu => ?_)
    fun l => nodup_enterUses
  rw [mem_enterUses, or_iff_left hu]

/-- A use is dropped at a value that is touched. -/
theorem keeps_dropUse (huser : s.Has (.value user)) {operand : Slot} (htouched : touched operand) :
    (dropUse user operand).Keeps (.reuses user touched) s fun _ _ => True := by
  refine reads_valueIn.bind fun v ⟨heq, hv⟩ => ?_
  subst heq
  refine reads_fetch.bind fun o ho => ?_
  split
  · show (modify fun s => s.mapUses v (·.erase user) : Act Unit).Keeps _ _ _
    refine (keeps_modify ?_).any
    refine Store.reuses_mapUses (Store.has_value_iff.mpr hv) huser htouched (fun l u hu => ?_)
      fun l => ?_
    · exact List.mem_erase_of_ne hu
    · exact fun h => h.erase user
  · -- not among the uses: the fault comes before anything changes
    exact ⟨.refl user touched s, nofun⟩

/-- Exchanging operands drops the old uses and adds the new ones, all of which are touched. -/
theorem keeps_setOperands (huser : s.Has (.value user)) {operands : List Slot}
    (hoperands : ∀ o ∈ operands, s.HasIn o) (hold : ∀ o ∈ s.operandsOf user, touched o)
    (hnew : ∀ o ∈ operands, touched o) :
    (setOperands user operands).Keeps (.reuses user touched) s fun _ _ => True := by
  refine reads_fetch.bind fun o ho => ?_
  rw [Store.operandsOf_eq ho] at hold
  have hdrop : (o.operands.eraseDups.forM (dropUse user)).Keeps (.reuses user touched) s
      fun _ _ => True :=
    keeps_forM fun old hmem t (ht : s.Reuses user touched t) =>
      keeps_dropUse (ht.has huser) (hold old (List.mem_eraseDups.mp hmem))
  refine hdrop.bind fun _ t (ht : s.Reuses user touched t) _ => ?_
  refine Keeps.bind (keeps_modify (Store.reuses_putOperands fun o ho =>
    ht.hasIn (hoperands o ho))) fun _ r (hr : t.Reuses user touched r) _ => ?_
  exact keeps_forM fun new hmem q (hq : r.Reuses user touched q) =>
    keeps_addUse (hq.has (hr.has (ht.has huser))) (hnew new (List.mem_eraseDups.mp hmem))

/-- Exchanging one operand drops a use unless the operand stays elsewhere, and adds another. -/
theorem keeps_setOperand (huser : s.Has (.value user)) (hs : s.Closed) (index : Int)
    {operand : Slot} (hoperand : s.HasIn operand) (hold : ∀ o ∈ s.operandsOf user, touched o)
    (hnew : touched operand) :
    (setOperand user index operand).Keeps (.reuses user touched) s fun _ _ => True := by
  refine reads_fetch.bind fun o ho => ?_
  dsimp only
  split
  · exact keeps_throw rfl
  · next place hplace =>
    rw [Store.operandsOf_eq ho] at hold
    have hlt : place < o.operands.length := position?_eq_some hplace
    have holdTouched : touched o.operands[place]?.join := by
      rw [List.getElem?_eq_getElem hlt]
      exact hold _ (List.getElem_mem hlt)
    have hoperands : ∀ o' ∈ o.operands.set place operand, s.HasIn o' := by
      intro o' ho'
      rcases List.mem_or_eq_of_mem_set ho' with ho' | rfl
      · exact hs.hasIn_operand (by rwa [Store.operandsOf_eq ho])
      · exact hoperand
    refine Keeps.bind (keeps_modify (Store.reuses_putOperands hoperands))
      fun _ t (ht : s.Reuses user touched t) _ => ?_
    -- whether or not the user leaves the old operand, it enters the uses of the new one
    have hadd : ∀ r, t.Reuses user touched r →
        (addUse user operand).Keeps (.reuses user touched) r fun _ _ => True := fun r hr =>
      keeps_addUse (hr.has (ht.has huser)) hnew
    split
    · exact Keeps.bind (keeps_dropUse (ht.has huser) holdTouched) fun _ r hr _ => hadd r hr
    · exact hadd t (.refl user touched t)

/-- An operand that is added is put behind the others. -/
theorem modify_append (operand : Slot) : s.modify user (·.mapOperands (· ++ [operand])) =
    s.putOperands user (s.operandsOf user ++ [operand]) := by
  refine Store.modify_congr fun o ho => ?_
  rw [Store.operandsOf_eq ho]
  obtain ⟨_, shape, _, _⟩ := o
  cases shape <;> rfl

/-- An operand that is added brings its use. -/
theorem keeps_pushOperand (huser : s.Has (.value user)) (hs : s.Closed) {operand : Slot}
    (hoperand : s.HasIn operand) (hnew : touched operand) :
    (pushOperand user operand).Keeps (.reuses user touched) s fun _ _ => True := by
  have hput : s.Reuses user touched (s.modify user (·.mapOperands (· ++ [operand]))) := by
    rw [modify_append]
    refine Store.reuses_putOperands fun o ho => ?_
    rcases List.mem_append.mp ho with ho | ho
    · exact hs.hasIn_operand ho
    · exact List.mem_singleton.mp ho ▸ hoperand
  exact Keeps.bind (keeps_update hput) fun _ t (ht : s.Reuses user touched t) _ =>
    keeps_addUse (ht.has huser) hnew

end Keeps

/-! ## Agreement -/

/-- Erasing duplicates leaves none. -/
theorem nodup_eraseDups {α : Type} [BEq α] [LawfulBEq α] (l : List α) : l.eraseDups.Nodup := by
  -- `eraseDups` goes on with a filtered tail, so that the induction is on the length
  induction hlength : l.length using Nat.strongRecOn generalizing l with
  | ind n ih =>
    cases l with
    | nil => exact List.nodup_nil
    | cons a rest =>
      rw [List.eraseDups_cons, List.nodup_cons]
      constructor
      · simp
      · refine ih _ ?_ _ rfl
        rw [← hlength]
        exact Nat.lt_succ_of_le (List.length_filter_le _ _)

namespace Store

/-- A user, which has operands of its own. -/
def IsUser (s : Store) (u : ValueId) : Prop :=
  ∃ o, s.get? u = some o ∧ o.isUser = true

theorem IsUser.has {s : Store} {u : ValueId} (h : s.IsUser u) : s.Has (.value u) := by
  obtain ⟨o, ho, _⟩ := h
  exact has_value_iff.mpr ⟨o, ho⟩

theorem IsUser.mapUses {s : Store} {u v : ValueId} (h : s.IsUser u)
    (f : List ValueId → List ValueId) : (s.mapUses v f).IsUser u := by
  obtain ⟨o, ho, huser⟩ := h
  rw [IsUser, get?_mapUses]
  split
  · exact ⟨{ o with uses := f o.uses }, by rw [ho]; rfl, huser⟩
  · exact ⟨o, ho, huser⟩

end Store

section Agreement

variable {s : Store} {user : ValueId}

/-- A use that is there is dropped. -/
theorem run_dropUse {v : ValueId} (h : user ∈ s.usesOf v) :
    (dropUse user (.ofValue v)).run s = (.ok (), s.mapUses v (·.erase user)) := by
  have hv := Store.has_of_mem_usesOf h
  obtain ⟨o, ho⟩ := Store.has_value_iff.mp hv
  rw [Store.usesOf_eq ho] at h
  rw [dropUse, run_valueIn_bind hv, run_fetch_bind ho]
  show Act.run (if user ∈ o.uses then _ else _) s = _
  rw [if_pos h]
  rfl

/-- A use is added at a value that is there. -/
theorem run_addUse {v : ValueId} (h : s.Has (.value v)) :
    (addUse user (.ofValue v)).run s = (.ok (), s.mapUses v (enterUses user)) := by
  rw [addUse_eq, run_valueIn_bind h]
  rfl

/-- Leaving the uses of some values, each once. -/
theorem run_dropUses (l : List Slot) (hl : l.Nodup) (huser : s.IsUser user)
    (honce : ∀ v, (s.usesOf v).Nodup)
    (huses : ∀ o ∈ l, ∃ v, o = Slot.ofValue v ∧ user ∈ s.usesOf v) :
    ∃ t, (l.forM (dropUse user)).run s = (.ok (), t) ∧ t.IsUser user ∧
      (∀ u, t.operandsOf u = s.operandsOf u) ∧ (∀ ref, s.Has ref → t.Has ref) ∧
      ∀ v, user ∈ t.usesOf v ↔ user ∈ s.usesOf v ∧ Slot.ofValue v ∉ l := by
  induction l generalizing s with
  | nil => exact ⟨s, rfl, huser, fun _ => rfl, fun _ h => h, by simp⟩
  | cons o rest ih =>
    obtain ⟨v, rfl, hmem⟩ := huses o List.mem_cons_self
    have hv : s.Has (.value v) := Store.has_of_mem_usesOf hmem
    have hnext : ∀ v', (s.mapUses v (·.erase user)).usesOf v' =
        if v' = v then (s.usesOf v').erase user else s.usesOf v' := Store.usesOf_mapUses hv
    have hmem' : ∀ v', user ∈ (s.mapUses v (·.erase user)).usesOf v' ↔
        user ∈ s.usesOf v' ∧ v' ≠ v := by
      intro v'
      rw [hnext]
      split
      · next h => simp [h, (honce v).not_mem_erase]
      · next h => simp [h]
    obtain ⟨hnot, hrest⟩ := List.nodup_cons.mp hl
    -- no value comes twice, so that the user is still among the uses of those left
    obtain ⟨t, hrun, htuser, hoperands, hhas, htuses⟩ := ih hrest (huser.mapUses _)
      (fun v' => by
        rw [hnext]
        split
        · exact (honce v').erase user
        · exact honce v')
      (fun o ho => by
        obtain ⟨v', rfl, hv'⟩ := huses o (List.mem_cons_of_mem _ ho)
        exact ⟨v', rfl, (hmem' v').mpr ⟨hv', fun h => hnot (h ▸ ho)⟩⟩)
    refine ⟨t, ?_, htuser, fun u => (hoperands u).trans (Store.operandsOf_mapUses u),
      fun ref href => hhas ref (Store.has_modify.mpr href), fun v' => ?_⟩
    · show Act.run (dropUse user (.ofValue v) >>= fun _ => rest.forM (dropUse user)) s = _
      rw [run_bind, run_dropUse hmem]
      exact hrun
    · rw [htuses, hmem', List.mem_cons, not_or, and_assoc]
      simp

/-- Entering the uses of some values. -/
theorem run_addUses (l : List Slot) (hl : ∀ o ∈ l, ∃ v, o = Slot.ofValue v ∧ s.Has (.value v)) :
    ∃ t, (l.forM (addUse user)).run s = (.ok (), t) ∧ (∀ u, t.operandsOf u = s.operandsOf u) ∧
      ∀ v, user ∈ t.usesOf v ↔ user ∈ s.usesOf v ∨ Slot.ofValue v ∈ l := by
  induction l generalizing s with
  | nil => exact ⟨s, rfl, fun _ => rfl, by simp⟩
  | cons o rest ih =>
    obtain ⟨v, rfl, hv⟩ := hl o List.mem_cons_self
    have hmem : ∀ v', user ∈ (s.mapUses v (enterUses user)).usesOf v' ↔
        user ∈ s.usesOf v' ∨ v' = v := by
      intro v'
      rw [Store.usesOf_mapUses hv]
      split
      · next h => simp [h, mem_enterUses]
      · next h => simp [h]
    obtain ⟨t, hrun, hoperands, htuses⟩ := @ih (s.mapUses v (enterUses user)) fun o ho => by
      obtain ⟨v', rfl, hv'⟩ := hl o (List.mem_cons_of_mem _ ho)
      exact ⟨v', rfl, Store.has_modify.mpr hv'⟩
    refine ⟨t, ?_, fun u => (hoperands u).trans (Store.operandsOf_mapUses u), fun v' => ?_⟩
    · show Act.run (addUse user (.ofValue v) >>= fun _ => rest.forM (addUse user)) s = _
      rw [run_bind, run_addUse hv]
      exact hrun
    · rw [htuses, hmem, List.mem_cons, or_assoc]
      simp

/-- Exchanging the operands of a user for values succeeds if the user is in step, and leaves it in
step. -/
theorem setOperands_agrees (honce : ∀ v, (s.usesOf v).Nodup) (huser : s.IsUser user)
    (hagree : s.Agrees user) {operands : List Slot}
    (hoperands : ∀ o ∈ operands, ∃ v, o = Slot.ofValue v ∧ s.Has (.value v)) :
    ∃ t, (setOperands user operands).run s = (.ok (), t) ∧ t.operandsOf user = operands ∧
      t.Agrees user := by
  obtain ⟨o, ho, _⟩ := id huser
  have hold : ∀ slot ∈ o.operands.eraseDups, ∃ v, slot = Slot.ofValue v ∧ user ∈ s.usesOf v := by
    intro slot hslot
    have hslot : slot ∈ s.operandsOf user := by
      rw [Store.operandsOf_eq ho]
      exact List.mem_eraseDups.mp hslot
    obtain ⟨v, rfl⟩ := hagree.value hslot
    exact ⟨v, rfl, (hagree.mem_iff v).mpr hslot⟩
  obtain ⟨t, hdrop, ⟨o', ho', huser'⟩, _, hhas, htuses⟩ :=
    run_dropUses _ (nodup_eraseDups _) huser honce hold
  -- three passes: the old operands forget the user, the list is exchanged, the new ones note it
  have hput : ∀ u, (t.putOperands user operands).operandsOf u =
      if u = user then operands else t.operandsOf u := Store.operandsOf_putOperands ho' huser'
  have hnew : ∀ slot ∈ operands.eraseDups,
      ∃ v, slot = Slot.ofValue v ∧ (t.putOperands user operands).Has (.value v) := by
    intro slot hslot
    obtain ⟨v, rfl, hv⟩ := hoperands slot (List.mem_eraseDups.mp hslot)
    exact ⟨v, rfl, Store.has_modify.mpr (hhas _ hv)⟩
  obtain ⟨r, hadd, hroperands, hruses⟩ := run_addUses _ hnew
  have hrun : (setOperands user operands).run s = (.ok (), r) := by
    rw [setOperands, run_fetch_bind ho]
    show Act.run (o.operands.eraseDups.forM (dropUse user) >>= _) s = _
    rw [run_bind, hdrop]
    show Act.run (update user _ >>= _) t = _
    rw [run_bind, run_update]
    exact hadd
  have hresult : r.operandsOf user = operands := by rw [hroperands, hput, if_pos rfl]
  refine ⟨r, hrun, hresult, fun v => ?_, fun {slot} hslot => ?_⟩
  · -- the user has left all old operands, so that only entering the new ones counts
    have hleft : user ∉ t.usesOf v := by
      rw [htuses, List.mem_eraseDups, hagree.mem_iff, Store.operandsOf_eq ho]
      exact fun h => h.2 h.1
    rw [hruses, Store.usesOf_putOperands, List.mem_eraseDups, hresult]
    exact or_iff_right hleft
  · rw [hresult] at hslot
    obtain ⟨v, hv, _⟩ := hoperands slot hslot
    exact ⟨v, hv⟩

/-- Exchanging one member of a list for another concerns these two only. -/
theorem mem_set_iff_of_ne {α : Type} {l : List α} {place : Nat} {a old new : α}
    (hold : l[place]? = some old) (haold : a ≠ old) (hanew : a ≠ new) :
    a ∈ l.set place new ↔ a ∈ l := by
  constructor
  · intro h
    exact (List.mem_or_eq_of_mem_set h).resolve_right hanew
  · intro h
    obtain ⟨i, hi, rfl⟩ := List.mem_iff_getElem.mp h
    have hne : place ≠ i := by
      rintro rfl
      exact haold (Option.some_inj.mp ((List.getElem?_eq_getElem hi).symm.trans hold))
    exact List.mem_iff_getElem.mpr ⟨i, by rwa [List.length_set], List.getElem_set_ne hne _⟩

/-- A user that has taken an operand is in step once it has entered the uses of it. -/
theorem addUse_agrees {operands : List Slot} (hoperands : s.operandsOf user = operands)
    (hvalues : ∀ o ∈ operands, ∃ v, o = Slot.ofValue v) {new : ValueId} (hnew : s.Has (.value new))
    (hmem : Slot.ofValue new ∈ operands)
    (hothers : ∀ v, v ≠ new → (user ∈ s.usesOf v ↔ Slot.ofValue v ∈ operands)) :
    ∃ t, (addUse user (.ofValue new)).run s = (.ok (), t) ∧ t.operandsOf user = operands ∧
      t.Agrees user := by
  have hresult : (s.mapUses new (enterUses user)).operandsOf user = operands := by
    rw [Store.operandsOf_mapUses, hoperands]
  refine ⟨s.mapUses new (enterUses user), run_addUse hnew, hresult, ?_, ?_⟩
  · intro v
    rw [Store.usesOf_mapUses hnew, hresult]
    split
    · next h =>
      subst h
      exact iff_of_true (mem_enterUses.mpr (.inr rfl)) hmem
    · next h => exact hothers v h
  · intro slot hslot
    rw [hresult] at hslot
    exact hvalues slot hslot

/-- Exchanging one operand of a user: the user leaves the uses of the old operand, unless another
operand is that too, and enters those of the new one. -/
theorem run_setOperand {o : Value} (ho : s.get? user = some o) {index : Int} {place : Nat}
    (hplace : position? (s.operandsOf user).length index = some place) {old new : ValueId}
    (hold : (s.operandsOf user)[place]? = some (.ofValue old)) :
    (setOperand user index (.ofValue new)).run s =
      Act.run (do
        if Slot.ofValue old ∉ (s.operandsOf user).set place (.ofValue new) then
          dropUse user (.ofValue old)
        addUse user (.ofValue new))
          (s.putOperands user ((s.operandsOf user).set place (.ofValue new))) := by
  rw [Store.operandsOf_eq ho] at hplace hold
  rw [setOperand, run_fetch_bind ho]
  dsimp only
  rw [hplace]
  dsimp only
  rw [run_bind, run_update, hold, ← Store.operandsOf_eq ho]
  rfl

/-- Exchanging one operand of a user for a value succeeds if the user is in step and the place is
there, and leaves the user in step. -/
theorem setOperand_agrees (huser : s.IsUser user) (honce : ∀ v, (s.usesOf v).Nodup)
    (hagree : s.Agrees user) {index : Int} {place : Nat}
    (hplace : position? (s.operandsOf user).length index = some place) {new : ValueId}
    (hnew : s.Has (.value new)) :
    ∃ t, (setOperand user index (.ofValue new)).run s = (.ok (), t) ∧
      t.operandsOf user = (s.operandsOf user).set place (.ofValue new) ∧ t.Agrees user := by
  obtain ⟨o, ho, hisUser⟩ := huser
  have hlt : place < (s.operandsOf user).length := position?_eq_some hplace
  obtain ⟨old, hold⟩ := hagree.value (List.getElem_mem hlt)
  have hget : (s.operandsOf user)[place]? = some (.ofValue old) := by
    rw [List.getElem?_eq_getElem hlt, hold]
  have holduses : user ∈ s.usesOf old := by
    rw [hagree.mem_iff, ← hold]
    exact List.getElem_mem hlt
  rw [run_setOperand ho hplace hget]
  generalize hset : (s.operandsOf user).set place (.ofValue new) = operands
  have hresult : (s.putOperands user operands).operandsOf user = operands := by
    rw [Store.operandsOf_putOperands ho hisUser, if_pos rfl]
  have hmem : Slot.ofValue new ∈ operands := by
    rw [← hset]
    exact List.mem_set hlt _
  have hvalues : ∀ slot ∈ operands, ∃ v, slot = Slot.ofValue v := by
    intro slot hslot
    rw [← hset] at hslot
    rcases List.mem_or_eq_of_mem_set hslot with hslot | rfl
    · exact hagree.value hslot
    · exact ⟨new, rfl⟩
  have hothers : ∀ v, v ≠ new → v ≠ old →
      (user ∈ (s.putOperands user operands).usesOf v ↔ Slot.ofValue v ∈ operands) := by
    intro v hv hvold
    rw [Store.usesOf_putOperands, hagree.mem_iff, ← hset]
    exact (mem_set_iff_of_ne hget (by simpa using hvold) (by simpa using hv)).symm
  by_cases hkeep : Slot.ofValue old ∈ operands
  · -- another operand is the old one still, so that the user stays among its uses
    rw [if_neg (not_not_intro hkeep)]
    refine addUse_agrees hresult hvalues (Store.has_modify.mpr hnew) hmem fun v hv => ?_
    by_cases hvold : v = old
    · subst hvold
      rw [Store.usesOf_putOperands]
      exact iff_of_true holduses hkeep
    · exact hothers v hv hvold
  · rw [if_pos hkeep]
    -- no operand is the old one any more: the user leaves its uses, where it is to be found
    have holduses' : user ∈ (s.putOperands user operands).usesOf old := by
      rw [Store.usesOf_putOperands]
      exact holduses
    show ∃ t, Act.run (dropUse user (.ofValue old) >>= fun _ => addUse user (.ofValue new)) _ =
      (.ok (), t) ∧ _
    rw [run_bind, run_dropUse holduses']
    refine addUse_agrees (by rw [Store.operandsOf_mapUses, hresult]) hvalues
      (Store.has_modify.mpr (Store.has_modify.mpr hnew)) hmem fun v hv => ?_
    rw [Store.usesOf_mapUses (Store.has_of_mem_usesOf holduses')]
    split
    · next h =>
      subst h
      rw [Store.usesOf_putOperands]
      exact iff_of_false (honce v).not_mem_erase hkeep
    · next h => exact hothers v hv h

/-- Taking a value as one more operand leaves a user in step. -/
theorem pushOperand_agrees (huser : s.IsUser user) (hagree : s.Agrees user) {new : ValueId}
    (hnew : s.Has (.value new)) :
    ∃ t, (pushOperand user (.ofValue new)).run s = (.ok (), t) ∧
      t.operandsOf user = s.operandsOf user ++ [.ofValue new] ∧ t.Agrees user := by
  obtain ⟨o, ho, hisUser⟩ := huser
  have hput : (s.putOperands user (s.operandsOf user ++ [.ofValue new])).operandsOf user =
      s.operandsOf user ++ [.ofValue new] := by
    rw [Store.operandsOf_putOperands ho hisUser, if_pos rfl]
  have hvalues : ∀ slot ∈ s.operandsOf user ++ [.ofValue new], ∃ v, slot = Slot.ofValue v := by
    intro slot hslot
    rcases List.mem_append.mp hslot with hslot | hslot
    · exact hagree.value hslot
    · exact ⟨new, List.mem_singleton.mp hslot⟩
  rw [pushOperand, run_bind, run_update, modify_append]
  refine addUse_agrees hput hvalues (Store.has_modify.mpr hnew)
    (List.mem_append_right _ List.mem_cons_self) fun v hv => ?_
  rw [Store.usesOf_putOperands, hagree.mem_iff]
  simp [hv]

end Agreement

end SsaDebugInfo
