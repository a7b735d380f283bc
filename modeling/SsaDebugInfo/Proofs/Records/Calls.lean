import SsaDebugInfo.Proofs.Act.PlainFaults
import SsaDebugInfo.Proofs.Handles

/-!
# What debug operations do

Making, migrating and scattering debug records is done by edits, and it leaves the program
undisturbed, whether it faults or not (`Conduct.records`). Only migrating needs that the operands of
debug records are wrappers, since it makes a record leave the uses of its old operand.

- `keeps_makeInstruction`: a new instruction, which may be a record.
- `keeps_makeRecord`, `keeps_bindValue`, `keeps_migrate`, `keeps_scatter`: the debug operations.
-/

namespace SsaDebugInfo

open Act Store

/-- Leaving the program undisturbed, provided that the records at hand are fit for it. -/
def Conduct.undisturbed (old : ValueId → Prop) (fit : Prop) : Conduct where
  change s t := fit → s.Undisturbed old t
  fault _ _ := True
  refl s _ := .refl old s
  trans hst htu hfit := (hst hfit).trans (htu hfit)
  fault_of_change _ _ := trivial
  plain _ := trivial

/-- How debug operations behave. -/
def Conduct.records (d : Discipline) (old : ValueId → Prop) (fit : Prop) : Conduct :=
  (Conduct.edits d).and (.undisturbed old fit)

/-- How placing one record behaves. -/
def Conduct.placing (d : Discipline) (r : ValueId) : Conduct :=
  (Conduct.edits d).and (.moves (· == .ofValue r))

/-- Every debug record has no operand, or a single one, which is a wrapper. -/
def Store.WrappedRecords (s : Store) : Prop :=
  ∀ r, s.isRecord r = true →
    s.operandsOf r = [] ∨ ∃ w, s.operandsOf r = [.ofValue w] ∧ s.wrappedAt w ≠ none

variable {α : Type} {d : Discipline} {old : ValueId → Prop} {fit : Prop} {s t : Store}

/-- Records hold wrappers as before while tables only grow. -/
theorem Store.WrappedRecords.of_interns (hs : s.WrappedRecords) (h : s.Interns t) :
    t.WrappedRecords := by
  intro r hr
  have hrecord : s.isRecord r = true ∨ ¬ s.Has (.value r) := by
    by_cases hhas : s.Has (.value r)
    · exact .inl ((h.isRecord hhas).symm.trans hr)
    · exact .inr hhas
  rw [h.operandsOf]
  rcases hrecord with hrecord | hnot
  · rcases hs r hrecord with hnone | ⟨w, hw, hwrapped⟩
    · exact .inl hnone
    · obtain ⟨n, hn⟩ := Option.ne_none_iff_exists'.mp hwrapped
      exact .inr ⟨w, hw, by rw [h.more.wrappedAt hn]; exact Option.some_ne_none n⟩
  · exact .inl (operandsOf_of_not_has hnot)

/-- What only interns is a call on records that disturbs nothing. -/
theorem Act.Keeps.of_interns {act : Act α} {answers : α → Store → Prop}
    (h : act.Keeps .interns s answers) :
    act.Keeps (.records d old fit) s fun a t => s.Interns t ∧ answers a t :=
  (h.mono fun _ _ ht ha => ⟨ht, ha⟩).weaken
    (fun _ ht => ⟨Interns.edited ht d, fun _ => Interns.undisturbed ht old⟩)
    fun _ hf => (Conduct.records d old fit).plain hf

/-- Edits that disturb nothing make up a call on records. -/
theorem Act.Keeps.undisturbed {act : Act α} {answers : α → Store → Prop}
    (h : act.Keeps (.edits d) s answers) (hundisturbed : fit → s.Undisturbed old (act.run s).2) :
    act.Keeps (.records d old fit) s answers :=
  h.and hundisturbed fun _ _ => trivial

/-- Debug operations are made of edits. -/
theorem Act.Keeps.edits {act : Act α} {answers : α → Store → Prop}
    (h : act.Keeps (.records d (fun _ => False) False) s answers) :
    act.Keeps (.edits d) s answers :=
  h.weaken (fun _ ht => ht.1) fun _ hf => hf.1

/-- What interns is made of edits. -/
theorem Act.Keeps.edits_of_interns {act : Act α} {answers : α → Store → Prop}
    (h : act.Keeps .interns s answers) :
    act.Keeps (.edits d) s fun a t => s.Interns t ∧ answers a t := by
  have hrecords : act.Keeps (.records d (fun _ => False) False) s _ := h.of_interns
  exact hrecords.edits

/-- Placing a record leaves the program undisturbed. -/
theorem Act.Keeps.of_placing (hs : s.Closed) {r : ValueId} (hr : s.isRecord r = true)
    {act : Act α} {answers : α → Store → Prop} (h : act.Keeps (.placing d r) s answers) :
    act.Keeps (.records d old fit) s answers := by
  refine h.weaken (fun t ht => ⟨ht.1, fun _ => ?_⟩) fun f hf => ⟨hf.1, trivial⟩
  refine Undisturbed.of_moves hs ht.2 (fun v hv => ?_) fun slot hslot => ⟨r, by simpa using hslot⟩
  obtain rfl : v = r := by simpa using hv
  exact hr

/-! ## Making records -/

theorem reads_requireValue {slot : Slot} :
    (requireValue slot).Reads s fun v => ∃ id, slot = .ofValue id ∧ s.get? id = some v := by
  refine reads_get.bind_reads fun t ht => ?_
  subst ht
  split
  · next id v hin => exact reads_pure ⟨id, valueIn?_eq_some.mp hin⟩
  · exact reads_throw rfl

/-- A new instruction takes its operands; if it is a record that takes wrappers, the program is left
undisturbed. -/
theorem keeps_makeInstruction (hs : s.Sound) (hold : ∀ v, old v → s.Has (.value v))
    {opcode : Opcode} {operands : List Slot}
    (hbinding : ∀ b, opcode.binding? = some b → s.HasIn b.var ∧ s.HasIn b.expression)
    (hfits : d.Fits s opcode.isDebugValue operands)
    (hfit : fit → ∀ v, Slot.ofValue v ∈ operands → s.wrappedAt v ≠ none) (type : Ty)
    (name : String) :
    (makeInstruction opcode operands type name).Keeps (.records d old fit) s fun id t =>
      t.Has (.value id) ∧ t.isRecord id = opcode.isDebugValue ∧ ¬ s.Has (.value id) := by
  let object : Value := { type, shape := .instruction { name } [] { opcode } }
  have hblank : Value.Blank object := ⟨rfl, rfl, rfl, rfl, rfl, rfl⟩
  have hslots : ∀ slot ∈ Kind.slots .value object, s.HasIn slot := by
    refine Value.holdsOnly_iff.mp (hblank.holdsOnly (fun _ h => nomatch h) (fun _ h => nomatch h)
      fun i hi => ?_)
    cases hi
    exact ⟨hasIn_none, hbinding⟩
  have hcreate : (create .value object).Keeps (.edits d) s _ := keeps_createEdit hs hblank hslots
  refine (hcreate.undisturbed fun _ => .push_value hs.closed rfl).bind fun id t ht hid => ?_
  obtain ⟨rfl, rfl⟩ := hid
  have hpush := ht.1.sound hs
  have hself : (s.push .value object).get? (s.nextId .value) = some object :=
    @get?_push_self .value s object
  have hrecord : (s.push .value object).isRecord (s.nextId .value) = opcode.isDebugValue :=
    isRecord_eq hself
  have hnone : (s.push .value object).operandsOf (s.nextId .value) = [] := operandsOf_eq hself
  have hmore : s.MoreTables (s.push .value object) :=
    (aside_create (show Kind.Blank .value object from hblank) hslots).toSameTables.more
  have hfits' := hfits.of_more hs.interned hmore
  -- the instruction was not there before, so that its operands may change
  have hfresh : ¬ s.Has (.value (s.nextId .value)) := by
    intro h
    exact @ne_nextId .value s _ h rfl
  have hreuses : Reuses (s.nextId .value) (· ∈ operands) (s.push .value object) _ :=
    (keeps_setOperands (has_value_iff.mpr ⟨_, hself⟩) hfits'.held
      (fun o ho => by rw [hnone] at ho; cases ho) fun o ho => ho).change
  have hset := keeps_edit (e := .setOperands (s.nextId .value) operands) hpush
    ⟨⟨object, hself, rfl⟩, by rw [hrecord]; exact hfits', fun _ _ => hnone⟩
  have hundisturbed : fit → (s.push .value object).Undisturbed old
      (Act.run (setOperands (s.nextId .value) operands) (s.push .value object)).2 := by
    intro h
    refine .of_reuses hpush.closed hreuses (fun hnew => absurd (hold _ hnew) hfresh) fun v hv => ?_
    obtain ⟨n, hn⟩ := Option.ne_none_iff_exists'.mp (hfit h v hv)
    rw [hmore.wrappedAt hn]
    exact Option.some_ne_none n
  refine Keeps.bind (hset.undisturbed hundisturbed) fun _ u hu heq => keeps_pure ?_
  subst heq
  exact ⟨hreuses.has (has_value_iff.mpr ⟨_, hself⟩), (hreuses.isRecord _).trans hrecord, hfresh⟩

/-- A record of a wrapper that is tied is made beside what there is. -/
theorem keeps_makeDebugValue (hs : s.Sound) (hold : ∀ v, old v → s.Has (.value v)) {wrapper : Slot}
    (binding : Binding) (hvar : s.HasIn binding.var) (hexpression : s.HasIn binding.expression)
    (htied : d.records = true → ∀ w, wrapper = .ofValue w → s.Tied w) (name : String) :
    (makeDebugValue wrapper binding name).Keeps (.records d old fit) s fun id t =>
      t.Has (.value id) ∧ t.isRecord id = true ∧ ¬ s.Has (.value id) := by
  refine reads_requireValue.bind fun v hv => ?_
  obtain ⟨w, rfl, hw⟩ := hv
  split
  · exact keeps_throw rfl
  · next n hn =>
    refine reads_fetch.bind fun _ _ => reads_require.bind fun _ _ => ?_
    refine keeps_makeInstruction hs hold (fun b hb => ?_) ⟨?_, ?_, ?_⟩ (fun _ v hv => ?_) .void name
    · cases hb
      exact ⟨hvar, hexpression⟩
    · exact List.forall_mem_singleton.mpr (hasIn_some.mpr (has_value_iff.mpr ⟨v, hw⟩))
    · exact fun _ => List.forall_mem_singleton.mpr ⟨w, rfl⟩
    · exact fun hd _ => .inr ⟨w, rfl, htied hd w rfl⟩
    · obtain rfl : v = w := by simpa using hv
      rw [wrappedAt_eq hw, hn]
      exact Option.some_ne_none n

/-- Making a record: the record is new. -/
theorem keeps_makeRecord (hs : s.Sound) (hold : ∀ v, old v → s.Has (.value v)) (value : Slot)
    (binding : Binding) {loc : Slot} (hvar : s.HasIn binding.var)
    (hexpression : s.HasIn binding.expression) (hloc : s.HasIn loc) :
    (makeRecord value binding loc).Keeps (.records d old fit) s fun id t =>
      t.Has (.value id) ∧ t.isRecord id = true := by
  have hwrapper : Act.Keeps (.records d old fit) _ s _ := (keeps_wrapperOfValue hs value).of_interns
  have hrest : ∀ w t, Edited d s t → (∃ v, value = Slot.ofValue v ∧ t.wrapperFor? v = some w) → (do
      let id ← makeDebugValue (.ofValue w) binding ""
      update id (·.mapInstruction fun i => { i with loc })
      return id : Act ValueId).Keeps (.records d old fit) t fun id t =>
        t.Has (.value id) ∧ t.isRecord id = true := by
    rintro w t hst ⟨v, rfl, hw⟩
    have ht := hst.sound hs
    have hold' : ∀ v, old v → t.Has (.value v) := fun v hv => hst.has (hold v hv)
    have htied : d.records = true → ∀ w', Slot.ofValue w = .ofValue w' → t.Tied w' := by
      rintro _ _ ⟨⟩
      exact ht.interned.tied hw
    refine (keeps_makeDebugValue ht hold' binding (hst.hasIn hvar) (hst.hasIn hexpression) htied
      "").bind fun id u htu hid => ?_
    obtain ⟨hid, hrecord, hfresh⟩ := hid
    have hu := htu.1.sound ht
    have hlike : ∀ o : Value, o.Like (o.mapInstruction fun i => { i with loc }) := fun o =>
      o.like_mapInstruction fun _ => rfl
    have hsetLoc : (update id (·.mapInstruction fun i => { i with loc })).Keeps (.edits d) u _ :=
      keeps_reviseInstruction hu (fun _ => rfl) (fun _ => rfl)
        (fun _ _ => htu.1.hasIn (hst.hasIn hloc)) fun _ h => h
    have hundisturbed : fit → u.Undisturbed old
        (u.modify id (·.mapInstruction fun i => { i with loc })) := fun _ =>
      .modify_value hu.closed (fun hnew => hfresh (hold' id hnew)) hlike fun o => by simp
    refine (hsetLoc.undisturbed hundisturbed).bind fun _ r _ heq => keeps_pure ?_
    subst heq
    refine ⟨has_modify.mpr hid, ?_⟩
    obtain ⟨o, ho, hdebug⟩ := isRecord_iff.mp hrecord
    refine isRecord_iff.mpr ⟨_, ?_, (hlike o).isDebugValue.trans hdebug⟩
    rw [get?_modify_self, ho]
    rfl
  -- the two parts are nested the other way round in `makeRecord`
  have hmake := hwrapper.bind fun w t ht hw => hrest w t ht.1 hw.2
  simp only [bind_assoc] at hmake
  exact hmake

/-! ## Placing records -/

section Placing

variable {r : ValueId}

/-- A placement that moves one record is made of edits. -/
theorem keeps_placing (placement : Placement) (hs : s.Sound)
    (hneeds : ∀ slot ∈ placement.needs, s.HasIn slot)
    (hmoves : placement.act.Keeps (.moves (· == .ofValue r)) s fun _ _ => True) :
    placement.act.Keeps (.placing d r) s fun _ _ => True :=
  (keeps_place placement hs hneeds).and hmoves.change fun _ hf => hmoves.fault hf

theorem keeps_placing_insertAfter (hs : s.Sound) {block : ValueId} (hblock : s.Has (.value block))
    (hr : s.Has (.value r)) (after : Slot) :
    (insertAfter block r after).Keeps (.placing d r) s fun _ _ => True := by
  have hmoves : (insertAfter block r after).Keeps (.moves (· == .ofValue r)) s fun _ _ => True :=
    keeps_insertAfter hs.closed hblock hr (by simp) after
  exact keeps_placing (.insertAfter block r after) hs (List.forall_mem_cons.mpr
    ⟨hasIn_some.mpr hblock, List.forall_mem_singleton.mpr (hasIn_some.mpr hr)⟩) hmoves

theorem keeps_placing_removeFromParent (hs : s.Sound) :
    (removeFromParent r).Keeps (.placing d r) s fun _ _ => True :=
  keeps_removeFromParent fun block =>
    keeps_placing (.remove block (.ofValue r)) hs (fun _ h => nomatch h)
      (keeps_removeFrom hs.closed block (by simp))

/-- Moving a record right after another instruction concerns only where the record stands. -/
theorem keeps_relocate (hs : s.Sound) (hr : s.Has (.value r)) (new : Slot) :
    (relocate r new).Keeps (.placing d r) s fun _ _ => True := by
  refine reads_get.bind fun s' hs' => ?_
  subst hs'
  split
  · exact keeps_pure trivial
  · split
    · refine (reads_nextInstruction _).bind fun next _ => ?_
      split
      · refine (keeps_placing_removeFromParent hs).bind fun _ t ht _ => ?_
        have ht' := ht.1.sound hs
        exact keeps_placeAfter ht'.closed fun block hblock =>
          keeps_placing_insertAfter ht' hblock (ht.1.has hr) new
      · exact keeps_pure trivial
    · exact keeps_pure trivial

end Placing

/-- Binding a value: the record exists before it is placed. -/
theorem keeps_bindValue (hs : s.Sound) (hold : ∀ v, old v → s.Has (.value v)) (value : Slot)
    (binding : Binding) {loc : Slot} (hvar : s.HasIn binding.var)
    (hexpression : s.HasIn binding.expression) (hloc : s.HasIn loc) (before after : Slot) :
    (bindValue value binding loc before after).Keeps (.records d old fit) s fun id t =>
      t.Has (.value id) := by
  refine reads_require.bind fun _ _ => ?_
  refine (keeps_makeRecord hs hold value binding hvar hexpression hloc).bind fun id t hst hid => ?_
  obtain ⟨hid, hrecord⟩ := hid
  have ht := hst.1.sound hs
  have hplaced : ∀ {act : Act Unit}, act.Keeps (.placing d id) t (fun _ _ => True) →
      (act >>= fun _ => pure id).Keeps (.records d old fit) t fun id u => u.Has (.value id) :=
    fun hact => (hact.of_placing ht.closed hrecord).bind fun _ u hu _ => keeps_pure (hu.1.has hid)
  dsimp only
  split
  · refine reads_instructionIn.bind fun target _ => reads_get.bind fun t' ht' => ?_
    subst ht'
    split
    · exact keeps_throw rfl
    · next block hblock =>
      obtain ⟨o, ho, hlink⟩ := Option.bind_eq_some_iff.mp hblock
      have hblock : t'.Has (.value block) := (ht.closed.holdsOnly ho).block block hlink _ rfl
      have hneeds : ∀ slot ∈ Placement.needs (.insertBefore block id before), t'.HasIn slot :=
        List.forall_mem_cons.mpr
          ⟨hasIn_some.mpr hblock, List.forall_mem_singleton.mpr (hasIn_some.mpr hid)⟩
      exact hplaced (keeps_placing (.insertBefore block id before) ht hneeds
        (keeps_insertBefore ht.closed hblock hid (by simp) before))
  · exact hplaced (keeps_placeAfter ht.closed fun block hblock =>
      keeps_placing_insertAfter ht hblock hid after)

/-! ## Migrating records -/

/-- What happens before a record is bound to another value: the journal tells so, and the value gets
its wrapper. -/
def wrapperForMigration (r : ValueId) (source target : Slot) : Act ValueId := do
  let text ← ask fun s => s.migrationText r source target
  record ⟨.records, .debug, text⟩
  let handle ← handleOf target
  wrapperOf (← contextOf target) handle

/-- Migration finds the record, gives it the wrapper of the target and takes it there. -/
theorem migrate_eq (source target : Slot) : migrate source target = (do
    match ← findRecord source with
    | none => pure ()
    | some r =>
      let w ← wrapperForMigration r source target
      setOperand r 0 (.ofValue w)
      relocate r target) := by
  unfold migrate wrapperForMigration
  refine congrArg _ (funext fun o => ?_)
  cases o with
  | none => rfl
  | some r => simp only [bind_assoc]

/-- The wrapper that a record gets is that of the target, new or old. -/
theorem keeps_wrapperForMigration (hs : s.Sound) (r : ValueId) (source target : Slot) :
    (wrapperForMigration r source target).Keeps .interns s fun w t =>
      ∃ v, target = .ofValue v ∧ t.wrapperFor? v = some w := by
  refine (reads_ask (s.plain_migrationText r source target)).bind fun text _ => ?_
  refine (keeps_recordEntry hs _).bind fun _ t (hst : s.Interns t) _ => ?_
  exact keeps_wrapperOfValue (hst.sound hs) target

/-- Giving a record the wrapper of a value as its operand. -/
theorem keeps_rebind (hs : s.Sound) (hsteady : d.steady = false)
    (hwrapped : fit → s.WrappedRecords) {r v w : ValueId} (hr : s.isRecord r = true)
    (hw : s.wrapperFor? v = some w) :
    (setOperand r 0 (.ofValue w)).Keeps (.records d old fit) s fun _ t => t.isRecord r = true := by
  obtain ⟨n, hn, _⟩ := hs.interned.of_wrapperFor? hw
  have hhas : s.HasIn (.ofValue w) := hasIn_some.mpr (has_of_wrappedAt hn)
  obtain ⟨o, ho, hdebug⟩ := isRecord_iff.mp hr
  -- only the uses of the old operand and of the new one are touched, both of them wrappers
  have hreuses : Reuses r (fun slot => slot = .ofValue w ∨ slot ∈ s.operandsOf r) s
      (Act.run (setOperand r 0 (.ofValue w)) s).2 :=
    (keeps_setOperand (has_of_isRecord hr) hs.closed 0 hhas (fun _ h => .inr h) (.inl rfl)).change
  have hfits : d.Fits s (s.isRecord r) [.ofValue w] :=
    ⟨List.forall_mem_singleton.mpr hhas, fun _ => List.forall_mem_singleton.mpr ⟨w, rfl⟩,
      fun _ _ => .inr ⟨w, rfl, hs.interned.tied hw⟩⟩
  have hedit : (setOperand r 0 (.ofValue w)).Keeps (.edits d) s _ :=
    keeps_edit (e := .setOperand r 0 (.ofValue w)) hs
      ⟨⟨o, ho, Value.isUser_of_isDebugValue hdebug⟩, hfits,
        fun hd => absurd (hsteady.symm.trans hd) Bool.false_ne_true⟩
  have hkeeps : (setOperand r 0 (.ofValue w)).Keeps (.records d old fit) s _ :=
    hedit.undisturbed fun hfit => .of_reuses hs.closed hreuses (fun _ => hr) fun v' hv' => by
      rcases hv' with heq | hmem
      · obtain rfl : v' = w := by simpa using heq
        rw [hn]
        exact Option.some_ne_none n
      · rcases hwrapped hfit r hr with hnone | ⟨w', hw', hwrapper⟩
        · rw [hnone] at hmem
          cases hmem
        · rw [hw', List.mem_singleton] at hmem
          obtain rfl : v' = w' := by simpa using hmem
          exact hwrapper
  refine hkeeps.mono fun _ t _ heq => ?_
  subst heq
  exact (hreuses.isRecord r).trans hr

/-- Migration gives one record another operand and another place. -/
theorem keeps_migrate (hs : s.Sound) (hsteady : d.steady = false)
    (hwrapped : fit → s.WrappedRecords) (source target : Slot) :
    (migrate source target).Keeps (.records d old fit) s fun _ _ => True := by
  rw [migrate_eq]
  refine (keeps_findRecord hs source).of_interns.bind fun o t _ hot => ?_
  obtain ⟨hst, ho⟩ := hot
  have ht := hst.sound hs
  split
  · exact keeps_pure trivial
  · next r =>
    obtain ⟨v, _, hfound⟩ := Option.bind_eq_some_iff.mp ho.symm
    obtain ⟨w, _, hfound⟩ := Option.bind_eq_some_iff.mp hfound
    have hr : t.isRecord r = true := (mem_of_recordOfWrapper? hfound).2
    refine (keeps_wrapperForMigration ht r source target).of_interns.bind fun w' u _ hwu => ?_
    obtain ⟨htu, v', _, hw'⟩ := hwu
    have hu := htu.sound ht
    have hr' : u.isRecord r = true := (htu.isRecord (has_of_isRecord hr)).trans hr
    have hwrapped' : fit → u.WrappedRecords := fun h => (hwrapped h).of_interns (hst.trans htu)
    refine (keeps_rebind hu hsteady hwrapped' hr' hw').bind fun _ q huq hq => ?_
    have hq' := huq.1.sound hu
    exact (keeps_relocate hq' (has_of_isRecord hq) target).of_placing hq'.closed hq

/-! ## Scattering records -/

/-- A size that is remembered disturbs nothing. -/
theorem keeps_sizeUnder (hs : s.Sound) (id : LayoutId) (type : Ty) :
    (sizeUnder id type).Keeps (.records d old fit) s fun _ _ => True := by
  refine reads_fetch.bind fun layout _ => ?_
  have hplain := Layout.plain_sizeInBits layout type
  dsimp only
  generalize hresult : Layout.sizeInBits layout type = result at hplain ⊢
  have hlayout : (update id fun _ => result.2).Keeps (.edits d) s _ :=
    keeps_reviseEdit hs fun _ _ => ⟨trivial, fun _ h => nomatch h⟩
  refine (hlayout.undisturbed fun _ => .of_values (.modify id _) fun _ =>
    get?_modify_kind _ _ _ _ (by decide)).bind fun _ _ _ _ => ?_
  exact (reads_ofExcept hplain).keeps.any

theorem keeps_sizeForRecord (hs : s.Sound) (r : ValueId) (type : Ty) :
    (sizeForRecord r type).Keeps (.records d old fit) s fun _ _ => True := by
  refine reads_get.bind fun t ht => ?_
  subst ht
  split
  · exact (reads_ofExcept (Layout.plain_sizeInBits _ type)).keeps.any
  · refine reads_fetch.bind fun f _ => ?_
    split
    · exact (reads_ofExcept (Layout.plain_sizeInBits _ type)).keeps.any
    · exact reads_fetch.bind fun m _ => keeps_sizeUnder hs _ type

theorem reads_operandAt (user : ValueId) (place : Nat) :
    (operandAt user place).Reads s fun _ => True := by
  refine reads_fetch.bind_reads fun v _ => ?_
  split
  · exact reads_pure trivial
  · exact reads_throw rfl

/-- One element gets a record behind its insertion. -/
theorem keeps_scatterOne (hs : s.Sound) (hold : ∀ v, old v → s.Has (.value v)) {var loc : Slot}
    (hvar : s.HasIn var) (hloc : s.HasIn loc) (width : Int) (piece : ValueId × Int) :
    (scatterOne var loc width piece).Keeps (.records d old fit) s fun _ _ => True := by
  let expression := Node.expression (Expression.ofBitPiece piece.2 width)
  have hcreate : (create .node expression).Keeps (.edits d) s _ :=
    keeps_createEdit hs rfl fun _ h => nomatch h
  have hundisturbed : s.Undisturbed old (s.push .node expression) :=
    .of_values (.push .node expression) fun _ => get?_push_kind _ _ _ (by decide)
  refine (hcreate.undisturbed fun _ => hundisturbed).bind fun id t hst hid => ?_
  obtain ⟨rfl, rfl⟩ := hid
  refine (reads_operandAt _ _).bind fun element _ => ?_
  have hid : (s.push .node expression).HasIn (.ofNode (s.nextId .node)) :=
    hasIn_some.mpr (has_push.mpr (.inl rfl))
  have hbind : Act.Keeps (.records d old fit) _ (s.push .node expression) _ :=
    keeps_bindValue (hst.1.sound hs) (fun v hv => hst.1.has (hold v hv)) element
      { var, expression := .ofNode (s.nextId .node), offset := 0 } (hst.1.hasIn hvar) hid
      (hst.1.hasIn hloc) none (.ofValue piece.1)
  exact hbind.bind fun _ _ _ _ => keeps_pure trivial

/-- Scattering makes records, one after another, and disturbs nothing. -/
theorem keeps_scatter (hs : s.Sound) (hold : ∀ v, old v → s.Has (.value v)) (slot : Slot) :
    (scatter slot).Keeps (.records d old fit) s fun _ _ => True := by
  refine reads_get.bind fun s' hs' => ?_
  subst hs'
  split
  · exact keeps_pure trivial
  split
  · refine (keeps_findRecord hs slot).of_interns.bind fun o t ht _ => ?_
    cases o with
    | none => exact keeps_pure trivial
    | some r =>
      have hst := ht.1
      refine (keeps_sizeForRecord (hst.sound hs) r _).bind fun width u hu _ => ?_
      have hsu := hst.trans hu.1
      have hclosed := (hsu.sound hs).closed
      refine (reads_ask (plain_found _)).bind fun binding hbinding => ?_
      refine (reads_ask (plain_found _)).bind fun loc hloc => ?_
      -- what the new records say is what the old one says
      have hvar := hclosed.hasIn_var (found_eq_ok.mp hbinding)
      have hloc := hclosed.hasIn_loc (found_eq_ok.mp hloc)
      refine (reads_ask (u.plain_parentPiece _)).bind fun parent _ => ?_
      refine (reads_ask (u.plain_chain slot)).bind fun inserts _ => ?_
      refine (reads_ask (plain_mapM _ fun insert =>
        u.plain_pieceOffset width parent insert)).bind fun offsets _ => ?_
      have hpieces : ((inserts.zip offsets).forM (scatterOne binding.var loc width)).Keeps
          (.records d old fit) u fun _ _ => True :=
        keeps_forM fun piece _ q hq => keeps_scatterOne (hq.1.sound (hsu.sound hs))
          (fun v hv => hq.1.has (hsu.has (hold v hv))) (hq.1.hasIn hvar) (hq.1.hasIn hloc) width
          piece
      refine hpieces.bind fun _ q hq _ => ?_
      refine (reads_ask ?_).bind fun text _ => ?_
      · exact (q.plain_describedName r).bind fun _ => (q.plain_operandText _).bind fun _ =>
          plain_pure _
      · exact (keeps_recordEntry (hq.1.sound (hsu.sound hs)) _).of_interns.any
  · exact keeps_pure trivial

end SsaDebugInfo
