import SsaDebugInfo.Proofs.Ir.Print
import SsaDebugInfo.Proofs.Ir.Succession
import SsaDebugInfo.Proofs.Records.Tracking

/-!
# The order of users

The users of a value are a set: in which order they are listed means nothing. Two stores may differ
in the order of users alone (`Store.Shuffled`), and then all that holds of stores between operations
holds of both, since it tells of the users of a value which there are.

- `Store.Shuffled.sound`, `Store.Shuffled.recorded`, `Store.Shuffled.wrapsOlder`,
  `Store.Shuffled.listsAgree`: what is kept in another order.
- `Store.Shuffled.tracks`: records track what they tracked.
- `exists_shuffled_findRecord`: whichever record tracks a value, it is the one that the finder
  yields in some order.
-/

namespace SsaDebugInfo

open Act Store

variable {s t u : Store} {v r : ValueId}

namespace Store

/-- A value before and after is the same but for the order of its users; everything else is the
same. -/
def SameButOrder : ObjectRelation
  | .value, v, w => w.map ({ · with uses := [] }) = v.map ({ · with uses := [] }) ∧
      ((w.map Value.uses).getD []).Perm ((v.map Value.uses).getD [])
  | _, o, p => p = o

theorem SameButOrder.refl (kind : Kind) (o : Option (Object kind)) : SameButOrder kind o o := by
  cases kind with
  | value => exact ⟨rfl, .refl _⟩
  | _ => exact rfl

theorem SameButOrder.symm (kind : Kind) (o p : Option (Object kind))
    (h : SameButOrder kind o p) : SameButOrder kind p o := by
  cases kind with
  | value => exact ⟨h.1.symm, h.2.symm⟩
  | _ => exact Eq.symm h

theorem SameButOrder.trans (kind : Kind) (o p q : Option (Object kind))
    (hop : SameButOrder kind o p) (hpq : SameButOrder kind p q) : SameButOrder kind o q := by
  cases kind with
  | value => exact ⟨hpq.1.trans hop.1, hpq.2.trans hop.2⟩
  | _ => exact Eq.trans hpq hop

theorem SameButOrder.isSome_eq {kind : Kind} {o p : Option (Object kind)}
    (h : SameButOrder kind o p) : p.isSome = o.isSome := by
  cases kind with
  | value => simpa using congrArg Option.isSome h.1
  | _ => exact congrArg Option.isSome h

/-- Nothing has come, gone or changed but for the order in which the users of values are listed. -/
structure Shuffled (s t : Store) : Prop where
  size : ∀ kind, (t.table kind).size = (s.table kind).size
  same : Pointwise SameButOrder s t

namespace Shuffled

theorem refl (s : Store) : s.Shuffled s where
  size _ := rfl
  same kind _ := SameButOrder.refl kind _

theorem symm (h : s.Shuffled t) : t.Shuffled s where
  size kind := (h.size kind).symm
  same kind id := SameButOrder.symm kind _ _ (h.same kind id)

theorem trans (hst : s.Shuffled t) (htu : t.Shuffled u) : s.Shuffled u where
  size kind := (htu.size kind).trans (hst.size kind)
  same := hst.same.trans SameButOrder.trans htu.same

/-- The users of one value may be listed in another order. -/
theorem modify {f : Value → Value} (hsame : ∀ a, { f a with uses := [] } = { a with uses := [] })
    (husers : ∀ a, s.get? v = some a → (f a).uses.Perm a.uses) : s.Shuffled (s.modify v f) where
  size kind := by
    by_cases hkind : kind = .value
    · subst hkind
      simp [Store.modify, Table.modify, Table.size]
    · rw [Store.modify, table_setTable_other _ _ hkind]
  same := .modify SameButOrder.refl v fun a ha =>
    ⟨congrArg some (hsame a), husers a ha⟩

variable (h : s.Shuffled t)

include h

/-- What is asked of a value without its users is answered as before. -/
theorem value {α : Type} (f : Value → α)
    (hf : ∀ a : Value, f { a with uses := [] } = f a) (v : ValueId) :
    (t.get? v).map f = (s.get? v).map f := by
  have hmap : ∀ o : Option Value, o.map f = (o.map ({ · with uses := [] })).map f := by
    intro o
    cases o with
    | none => rfl
    | some a => exact congrArg some (hf a).symm
  rw [hmap (t.get? v), hmap (s.get? v), (h.same .value v).1]

/-- So is what a value may lack. -/
theorem valueBind {α : Type} (f : Value → Option α)
    (hf : ∀ a : Value, f { a with uses := [] } = f a) (v : ValueId) :
    (t.get? v).bind f = (s.get? v).bind f := by
  have hjoin : ∀ o : Option Value, o.bind f = (o.map f).join := by
    intro o
    cases o with
    | none => rfl
    | some a => rfl
  rw [hjoin (t.get? v), hjoin (s.get? v), h.value f hf]

/-- Objects other than values are the same. -/
theorem get?_of_ne {kind : Kind} (hkind : kind ≠ .value) (id : Id kind) :
    t.get? id = s.get? id := by
  have hsame := h.same kind id
  cases kind with
  | value => exact absurd rfl hkind
  | _ => exact hsame

theorem users (v : ValueId) : (t.usesOf v).Perm (s.usesOf v) :=
  (h.same .value v).2

theorem toExtends : s.Extends t where
  size kind := Nat.le_of_eq (h.size kind).symm
  kept id hid := by rwa [(h.same _ id).isSome_eq]
  fresh id hid := by
    rw [(h.same _ id).isSome_eq] at hid
    exact .inl hid

theorem has_iff (ref : Ref) : t.Has ref ↔ s.Has ref :=
  ⟨fun href => h.symm.toExtends.has href, fun href => h.toExtends.has href⟩

theorem hasIn_iff (slot : Slot) : t.HasIn slot ↔ s.HasIn slot :=
  forall₂_congr fun ref _ => h.has_iff ref

/-! ## What the tables say -/

theorem sameTables : s.SameTables t where
  toExtends := h.toExtends
  entries kind id := by
    cases kind with
    | value =>
      exact ⟨h.valueBind Value.wrapped? (fun _ => rfl) id, fun c hc =>
        (h.valueBind Value.context (fun _ => rfl) id).trans hc⟩
    | node => exact congrArg (·.bind Node.handleOf?) (h.get?_of_ne (by decide) id)
    | context =>
      have hsame := h.get?_of_ne (by decide) id
      exact ⟨congrArg (fun c => (c.map Context.handles).getD []) hsame,
        congrArg (fun c => (c.map Context.wrappers).getD []) hsame⟩
    | _ => trivial

theorem operandsOf (v : ValueId) : t.operandsOf v = s.operandsOf v :=
  congrArg (·.getD []) (h.value Value.operands (fun _ => rfl) v)

theorem isRecord (r : ValueId) : t.isRecord r = s.isRecord r :=
  congrArg (·.getD false) (h.value Value.isDebugValue (fun _ => rfl) r)

theorem instructionsOf (b : ValueId) : t.instructionsOf b = s.instructionsOf b :=
  congrArg (·.getD []) (h.value Value.instructions (fun _ => rfl) b)

theorem blockOf? (x : ValueId) : t.blockOf? x = s.blockOf? x :=
  h.valueBind Value.block? (fun _ => rfl) x

theorem instruction? (x : ValueId) : t.instruction? x = s.instruction? x :=
  h.valueBind Value.instruction? (fun _ => rfl) x

/-! ## What holds between operations -/

/-- A value holds what it held, its users in another order. -/
theorem closed (hs : s.Closed) : t.Closed where
  held {kind} id o ho slot hslot := by
    rw [h.hasIn_iff]
    by_cases hkind : kind = .value
    · subst hkind
      have hsame := h.same .value id
      have hget : t.get? id = some o := ho
      obtain ⟨a, ha⟩ : ∃ a, s.get? id = some a := by
        refine Option.isSome_iff_exists.mp ?_
        rw [← hsame.isSome_eq, hget]
        rfl
      rw [hget, ha] at hsame
      obtain ⟨hfields, husers⟩ := hsame
      have hholds := hs.holdsOnly ha
      have hfields : { o with uses := [] } = ({ a with uses := [] } : Value) :=
        Option.some_inj.mp hfields
      have hback : { o with uses := a.uses } = a :=
        congrArg (fun b : Value => { b with uses := a.uses }) hfields
      rw [← hback] at hholds
      have hall : o.HoldsOnly s.HasIn :=
        { hholds with uses := fun u hu => hholds.uses u (husers.mem_iff.mp hu) }
      exact Value.holdsOnly_iff.mp hall slot hslot
    · rw [h.get?_of_ne hkind] at ho
      exact hs.held id ho slot hslot
  global := (h.has_iff _).mpr hs.global

theorem sound (hs : s.Sound) : t.Sound where
  closed := h.closed hs.closed
  interned := hs.interned.of_sameTables h.sameTables
  once v := (h.users v).nodup_iff.mpr (hs.once v)

/-- A user stands among the users of its operands, wherever among them. -/
theorem agrees {x : ValueId} (hx : s.Agrees x) : t.Agrees x where
  mem_iff v := by
    rw [(h.users v).mem_iff, h.operandsOf]
    exact hx.mem_iff v
  value ho := hx.value (h.operandsOf x ▸ ho)

theorem useDef (hs : s.UseDef) : t.UseDef :=
  fun x => h.agrees (hs x)

theorem recorded (hs : s.Interned) (hrecorded : s.Recorded) : t.Recorded := by
  intro r hr
  rw [h.isRecord] at hr
  obtain ⟨hagrees, htied⟩ := hrecorded r hr
  exact ⟨h.agrees hagrees, htied.of_more hs h.sameTables.more (h.operandsOf r)⟩

theorem wrapsOlder (hs : s.WrapsOlder) : t.WrapsOlder :=
  hs.of_sameTables h.sameTables

theorem listsAgree (hs : s.ListsAgree) : t.ListsAgree where
  mem_iff b slot := by
    rw [h.instructionsOf, hs.mem_iff]
    exact exists_congr fun x => and_congr_right fun _ => by rw [h.blockOf?]
  once b := h.instructionsOf b ▸ hs.once b

/-- What a record tracks does not depend on the order of users. -/
theorem tracks (r v : ValueId) : t.tracks r v = s.tracks r v := by
  rw [Bool.eq_iff_iff, tracks_iff, tracks_iff, h.isRecord, h.operandsOf]
  simp only [h.sameTables.wrappedAt, h.sameTables.handleAt, h.has_iff]

end Shuffled

end Store

/-- Every record that tracks a value is the one that the finder yields, if the users of the value's
wrapper come in the right order. -/
theorem exists_shuffled_findRecord (hs : s.Sound) (hrecorded : s.Recorded)
    (htracks : s.tracks r v = true) :
    ∃ t u, s.Shuffled t ∧ (findRecord (.ofValue v)).run t = (.ok (some r), u) := by
  have hv := has_of_tracks htracks
  obtain ⟨w, hw, huse, hr⟩ := (hrecorded.mayFind_iff hs.interned hv).mpr htracks
  -- the record is listed first
  let first (a : Value) : Value := { a with uses := r :: a.uses.erase r }
  have hshuffled : s.Shuffled (s.modify w first) := by
    refine .modify (fun _ => rfl) fun a ha => (List.perm_cons_erase ?_).symm
    rwa [usesOf_eq ha] at huse
  have ht : (s.modify w first).Sound := hshuffled.sound hs
  obtain ⟨o, u, hrun⟩ := answers_findRecord ht ((hshuffled.has_iff _).mpr hv)
  obtain ⟨htu, ho⟩ := (keeps_findRecord ht (.ofValue v)).ok hrun
  have hu : u.Sound := Interns.sound htu ht
  have hwrapper : u.wrapperFor? v = some w :=
    (hshuffled.sameTables.more.trans htu.more).wrapperFor? hs.interned hu.interned hw
  have husers : u.usesOf w = r :: (s.usesOf w).erase r := by
    rw [htu.toKeepsUses.usesOf]
    obtain ⟨a, ha⟩ := has_value_iff.mp (has_of_mem_usesOf huse)
    rw [usesOf, get?_modify_self, ha, usesOf_eq ha]
    rfl
  have hrecord : u.isRecord r = true := by
    rw [htu.toKeepsUses.isRecord ((hshuffled.has_iff _).mpr (has_of_isRecord hr)),
      hshuffled.isRecord, hr]
  have hfound : o = some r := by
    rw [ho]
    show (u.wrapperFor? v).bind u.recordOfWrapper? = some r
    rw [hwrapper, Option.bind_some, recordOfWrapper?, husers]
    exact List.find?_cons_of_pos hrecord
  exact ⟨_, u, hshuffled, hfound ▸ hrun⟩

end SsaDebugInfo
