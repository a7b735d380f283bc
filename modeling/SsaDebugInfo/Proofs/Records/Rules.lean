import SsaDebugInfo.Proofs.Ir.Rules
import SsaDebugInfo.Proofs.Records.Calls
import SsaDebugInfo.Proofs.Touches

/-!
# Debug operations by a rule

A new record is nowhere and has no name, and a record that moves leaves the block that it is in
first. So binding and scattering preserve what a rule upholds, wherever they are asked for, and
migrating does if the record may move.

- `makeRecord_new`: a new record was not there before.
- `Rule.Yields.ends_bindValue`, `Rule.Yields.ends_migrate`, `Rule.Yields.ends_scatter`: the debug
  operations.
-/

namespace SsaDebugInfo

open Act Store

variable {s t : Store}

/-! ## New records -/

/-- A value that was not there before, and has no name yet. -/
def Store.New (s : Store) (id : ValueId) (t : Store) : Prop :=
  ¬ s.Has (.value id) ∧ ∃ o : Value, t.get? id = some o ∧ o.site? = some { name := "" }

theorem makeInstruction_new (opcode : Opcode) (operands : List Slot) (type : Ty) :
    (makeInstruction opcode operands type "").Ends s (fun id t => s.New id t) fun _ _ => True := by
  let object : Value := { type, shape := .instruction { name := "" } [] { opcode } }
  have hcreate : (create .value object).Ends s
      (fun id t => ¬ s.Has (.value id) ∧ t.get? id = some object) fun _ _ => True :=
    ⟨fun h => @ne_nextId .value s _ h rfl, @get?_push_self .value s object⟩
  refine hcreate.bind fun id t ⟨hid, hobject⟩ => ?_
  have hset : (setOperands id operands).Only Unmoved := still_setOperands id operands
  refine ((hset.ends t).mono (fun _ _ h => h) fun _ _ _ => trivial).bind fun _ u hu => ?_
  obtain ⟨o, ho, hsite⟩ := hu.site? hobject
  exact ends_pure ⟨hid, o, ho, hsite⟩

theorem makeDebugValue_new (wrapper : Slot) (binding : Binding) :
    (makeDebugValue wrapper binding "").Ends s (fun id t => s.New id t) fun _ _ => True := by
  refine Reads.bind_ends reads_requireValue (fun _ => trivial) fun v _ => ?_
  split
  · exact ends_throw trivial
  · refine Reads.bind_ends reads_fetch (fun _ => trivial) fun _ _ => ?_
    refine Reads.bind_ends reads_require (fun _ => trivial) fun _ _ => ?_
    exact makeInstruction_new _ _ _

/-- What has been made in between was not there before either. -/
theorem makeRecord_new (value : Slot) (binding : Binding) (loc : Slot) :
    (makeRecord value binding loc).Ends s (fun id t => s.New id t) fun _ _ => True := by
  have hextends : ∀ {α : Type} {act : Act α} {u : Store}, s.Extends u →
      act.Only Unmoved → act.Ends u (fun _ t => s.Extends t) fun _ _ => True :=
    fun hu h => (h.ends _).mono (fun _ _ ht => hu.trans ht.toExtends) fun _ _ _ => trivial
  have hhandle := (touches_handleOf (fun _ _ => trivial) value).still
  refine (hextends (.refl s) hhandle).bind fun handle t ht => ?_
  refine (hextends ht (fixes_touches.contextOf value).still).bind fun context t ht => ?_
  refine (hextends ht (furnishes_touches.wrapperOf context handle).still).bind
    fun wrapper t ht => ?_
  refine (makeDebugValue_new _ binding).bind fun id u ⟨hid, o, ho, hsite⟩ => ?_
  let o' := o.mapInstruction fun i => { i with loc }
  refine ends_update_bind (ends_pure ⟨fun h => hid (ht.has h), o', ?_, ?_⟩)
  · rw [get?_modify_self, ho]
    rfl
  · rw [Value.site?_mapInstruction, hsite]

/-- Preparing a migration moves nothing. -/
theorem still_wrapperForMigration (r : ValueId) (source target : Slot) :
    (wrapperForMigration r source target).Only Unmoved := by
  refine (only_ask _).bind fun text => (touches_record _).still.bind fun _ => ?_
  refine (touches_handleOf (fun _ _ => trivial) target).still.bind fun handle => ?_
  exact (fixes_touches.contextOf target).still.bind fun context =>
    (furnishes_touches.wrapperOf context handle).still

theorem Store.formOf?_of_isRecord {r : ValueId} (h : s.isRecord r = true) :
    s.formOf? r = some .instruction := by
  obtain ⟨v, hv, hdebug⟩ := isRecord_iff.mp h
  obtain ⟨binding, hbinding⟩ := Option.isSome_iff_exists.mp hdebug
  obtain ⟨opcode, hopcode, _⟩ := Option.bind_eq_some_iff.mp hbinding
  obtain ⟨i, hi, _⟩ := Option.map_eq_some_iff.mp hopcode
  exact formOf?_eq_instruction.mpr ⟨v, i, hv, hi⟩

namespace Rule.Yields

variable {rule : Rule} {start P : Store → Prop} (h : rule.Yields start P)

include h

/-- A new record is in no block, and may move. -/
theorem ends_makeRecord (hs : P s) (value : Slot) (binding : Binding) {loc : Slot}
    (hvar : s.HasIn binding.var) (hexpression : s.HasIn binding.expression) (hloc : s.HasIn loc) :
    (makeRecord value binding loc).Ends s (fun id t => P t ∧ t.formOf? id = some .instruction ∧
      t.blockOf? id = none ∧ ∀ target, rule.move t id target = true) (rule.orElse P) := by
  have hkeeps := (keeps_makeRecord (d := {}) (h.sound hs) (fun _ h => h.elim) value binding hvar
    hexpression hloc).edits
  have hstill : (SsaDebugInfo.makeRecord value binding loc).Only Unmoved :=
    (touches_makeRecord (fun _ _ => trivial) value binding loc).still
  refine ((h.still hs hstill hkeeps).also (makeRecord_new value binding loc)).mono
    (fun id t ⟨⟨ht, hst, _, hrecord⟩, hnew, o, ho, hsite⟩ =>
      ⟨ht, formOf?_of_isRecord hrecord, ?_, h.move_new ho hsite⟩) fun _ _ hf => hf
  rw [hst.blockOf?, Store.blockOf?, Option.not_isSome_iff_eq_none.mp hnew]
  rfl

/-- Binding a value places the new record next to an instruction that is in a block. -/
theorem ends_bindValue (hs : P s) (value : Slot) (binding : Binding) {loc : Slot}
    (hvar : s.HasIn binding.var) (hexpression : s.HasIn binding.expression) (hloc : s.HasIn loc)
    (before after : Slot) :
    (bindValue value binding loc before after).Ends s (fun _ t => P t) (rule.orElse P) := by
  refine Reads.bind_ends reads_require (fault hs) fun _ _ => ?_
  refine (h.ends_makeRecord hs value binding hvar hexpression hloc).bind
    fun id t ⟨ht, hid, hdetached, hmove⟩ => ?_
  dsimp only
  split
  · refine Reads.bind_ends reads_instructionIn (fault ht) fun target htarget => ?_
    obtain ⟨rfl, _⟩ := htarget
    refine Reads.bind_ends reads_get (fault ht) ?_
    rintro _ rfl
    split
    · exact ends_throw (fault ht _)
    · next t b hblock =>
      have hb := (h.sound ht).closed.has_block hblock
      refine (h.place ht (.insertBefore b id (.ofValue target)) ?_
        (h.move ht hid hdetached hblock (hmove target)).1).bind fun _ u hu => ends_pure hu
      exact List.forall_mem_cons.mpr ⟨hasIn_some.mpr hb,
        List.forall_mem_singleton.mpr (hasIn_some.mpr (has_of_formOf? hid))⟩
  · exact (h.ends_placeAfter ht hid after fun target _ => hmove target).bind
      fun _ u hu => ends_pure hu

/-! ## Records that move -/

theorem ends_relocate (hs : start s) {r : ValueId} (hr : s.formOf? r = some .instruction)
    (new : Slot) (hmove : ∀ target, new = .ofValue target → rule.move s r target = true) :
    (relocate r new).Ends s (fun _ t => P t) (rule.orElse P) := by
  refine Reads.bind_ends reads_get (fault (h.enough hs)) ?_
  rintro _ rfl
  split
  · exact ends_pure (h.enough hs)
  · split
    · refine Reads.bind_ends (reads_nextInstruction _) (fault (h.enough hs)) fun next _ => ?_
      split
      · refine (h.ends_removeFromParent hs r).bind fun _ t ⟨ht, hform, hmoves⟩ => ?_
        exact h.ends_placeAfter (h.enough ht) (hform _ hr) new fun target htarget =>
          hmoves _ (hmove target htarget)
      · exact ends_pure (h.enough hs)
    · exact ends_pure (h.enough hs)

/-- The record of the source may have to move to the target. -/
theorem ends_migrate (hs : start s) (source target : Slot)
    (hmove : ∀ r t v, (findRecord source).run s = (.ok (some r), t) → target = .ofValue v →
      rule.move t r v = true) :
    (migrate source target).Ends s (fun _ t => P t) (rule.orElse P) := by
  rw [migrate_eq]
  have hfind := h.start_still hs (touches_findRecord source).still
    (keeps_findRecord (h.start_sound hs) source).edits_of_interns
  refine (hfind.also (.run _ s)).bind fun o t ⟨⟨ht, _, _, ho⟩, hrun⟩ => ?_
  cases o with
  | none => exact ends_pure (h.enough ht)
  | some r =>
    obtain ⟨v, _, hfound⟩ := Option.bind_eq_some_iff.mp ho.symm
    obtain ⟨w, _, hfound⟩ := Option.bind_eq_some_iff.mp hfound
    have hr : t.isRecord r = true := (mem_of_recordOfWrapper? hfound).2
    have hwrapper := keeps_wrapperForMigration (h.start_sound ht) r source target
    have hstill := still_wrapperForMigration r source target
    refine (h.start_still ht hstill hwrapper.edits_of_interns).bind
      fun w u ⟨hu, htu, hinterns, v', _, hw⟩ => ?_
    have hr' : u.isRecord r = true := (hinterns.isRecord (has_of_isRecord hr)).trans hr
    have hrebind : Act.Keeps (.records {} (fun _ => False) False) _ u _ :=
      keeps_rebind (h.start_sound hu) rfl (fun h => h.elim) hr' hw
    refine (h.start_still hu (still_setOperand r 0 _) hrebind.edits).bind
      fun _ q ⟨hq, huq, hr''⟩ => ?_
    refine h.ends_relocate hq (formOf?_of_isRecord hr'') target fun v hv => ?_
    exact h.move_unmoved (htu.trans huq) (has_of_isRecord hr) (hmove r t v hrun hv)

/-! ## Records for elements -/

theorem ends_scatterOne (hs : P s) {var loc : Slot} (hvar : s.HasIn var)
    (hloc : s.HasIn loc) (width : Int) (piece : ValueId × Int) :
    (scatterOne var loc width piece).Ends s (fun _ t => P t ∧ s.Extends t) (rule.orElse P) := by
  let expression := Node.expression (Expression.ofBitPiece piece.2 width)
  have hcreate : (create .node expression).Keeps (.edits {}) s _ :=
    keeps_createEdit (h.sound hs) rfl fun _ h => nomatch h
  have hstill : (create .node expression).Only Unmoved :=
    only_create fun _ => .push fun _ _ => .inr trivial
  have hbind : (SsaDebugInfo.scatterOne var loc width piece).Ends s (fun _ t => P t)
      (rule.orElse P) := by
    refine (h.still hs hstill hcreate).bind fun id t ⟨ht, hst, hid, heq⟩ => ?_
    subst hid heq
    refine Reads.bind_ends (reads_operandAt _ _) (fault ht) fun element _ => ?_
    have hid : (s.push .node expression).HasIn (.ofNode (s.nextId .node)) :=
      hasIn_some.mpr (has_push.mpr (.inl rfl))
    exact (h.ends_bindValue ht element { var, expression := .ofNode (s.nextId .node), offset := 0 }
      (hst.hasIn hvar) hid (hst.hasIn hloc) none (.ofValue piece.1)).bind fun _ u hu => ends_pure hu
  have hkeeps := (keeps_scatterOne (d := {}) (h.sound hs) (fun _ h => h.elim) hvar hloc width
    piece).edits
  exact (hbind.also hkeeps.ends).mono (fun _ t ht => ⟨ht.1, ht.2.1.toExtends⟩) fun _ _ hf => hf

theorem ends_scatter (hs : P s) (slot : Slot) :
    (scatter slot).Ends s (fun _ t => P t) (rule.orElse P) := by
  refine Reads.bind_ends reads_get (fault hs) ?_
  rintro _ rfl
  split
  · exact ends_pure hs
  split
  · next s _ _ _ _ type _ _ =>
    refine (h.still hs (touches_findRecord slot).still
      (keeps_findRecord (h.sound hs) slot).edits_of_interns).bind fun o t ⟨ht, _⟩ => ?_
    cases o with
    | none => exact ends_pure ht
    | some r =>
      have hsize : Act.Keeps (.records {} (fun _ => False) False) _ t _ :=
        keeps_sizeForRecord (h.sound ht) r type
      have hwidth := h.still ht (touches_sizeForRecord r type).still hsize.edits
      refine hwidth.bind fun width u ⟨hu, _⟩ => ?_
      have hclosed := (h.sound hu).closed
      refine Reads.bind_ends (reads_ask (plain_found _)) (fault hu) fun binding hbinding => ?_
      refine Reads.bind_ends (reads_ask (plain_found _)) (fault hu) fun loc hloc => ?_
      -- what the new records say is what the old one says
      have hvar := hclosed.hasIn_var (found_eq_ok.mp hbinding)
      have hloc := hclosed.hasIn_loc (found_eq_ok.mp hloc)
      refine Reads.bind_ends (reads_ask (u.plain_parentPiece _)) (fault hu) fun parent _ => ?_
      refine Reads.bind_ends (reads_ask (u.plain_chain slot)) (fault hu) fun inserts _ => ?_
      refine Reads.bind_ends (reads_ask (plain_mapM _ fun insert =>
        u.plain_pieceOffset width parent insert)) (fault hu) fun offsets _ => ?_
      refine (ends_forM (fun _ q => P q ∧ u.Extends q) ⟨hu, .refl u⟩ ?_).bind
        fun _ q hq => ?_
      · rintro _ piece _ _ q ⟨hq, huq⟩
        exact (h.ends_scatterOne hq (huq.hasIn hvar) (huq.hasIn hloc) width piece).mono
          (fun _ p hp => ⟨hp.1, huq.trans hp.2⟩) fun _ _ hf => hf
      · refine Reads.bind_ends (reads_ask ?_) (fault hq.1) fun text _ => ?_
        · exact (q.plain_describedName r).bind fun _ => (q.plain_operandText _).bind fun _ =>
            plain_pure _
        · have hrecord := keeps_recordEntry (h.sound hq.1) ⟨.records, .debug, text⟩
          have hrecorded := h.still hq.1 (touches_record _).still hrecord.edits_of_interns
          exact hrecorded.mono (fun _ _ h => h.1)
            fun _ _ hf => hf
  · exact ends_pure hs

end Rule.Yields

end SsaDebugInfo
