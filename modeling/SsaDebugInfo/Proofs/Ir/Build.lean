import SsaDebugInfo.Proofs.Records.Calls

/-!
# Making values is done by edits

Whatever is made is made without any part in anything; an edit then gives it its operands, its
instructions or its arguments. What has been made is there even if that edit faults.

- `keeps_makeValue`: a value that holds only what is there.
- `keeps_makeProgram`: an instruction that is no debug record, all of whose operands fit.
- `keeps_makeFunction`, `keeps_makeBlock`, `keeps_makeUser`, `keeps_addIncoming`: the others.
-/

namespace SsaDebugInfo

open Act Store

variable {d : Discipline} {s t : Store}

/-- Forming a type registers nothing but its label. -/
theorem keeps_formType (hs : s.Sound) (type : Ty) :
    (formType type).Keeps (.edits d) s fun _ _ => True := by
  refine reads_require.bind fun _ _ => reads_get.bind fun t ht => ?_
  subst ht
  dsimp only
  generalize Ty.withFreshLabels t.labelTypes type = fresh
  have hannotate : (Edit.annotate fresh.2 t.journal).act.Keeps (.edits d) t _ :=
    keeps_edit hs trivial
  have hset : (set { t with labelTypes := fresh.2 } : Act PUnit).Keeps (.edits d) t
      fun _ _ => True := ⟨hannotate.change, trivial⟩
  exact hset.bind fun _ _ _ _ => keeps_pure trivial

/-- A value without any part in anything, and which holds nothing but its context. -/
theorem keeps_makeValue (hs : s.Sound) {object : Value} (hblank : object.Blank)
    (hholds : object.HoldsOnly s.HasIn) :
    (create .value object).Keeps (.edits d) s fun id t =>
      t.Has (.value id) ∧ t.get? id = some object ∧ s.MoreTables t := by
  have hslots : ∀ slot ∈ Kind.slots .value object, s.HasIn slot := Value.holdsOnly_iff.mp hholds
  have hcreate : (create .value object).Keeps (.edits d) s _ := keeps_createEdit hs hblank hslots
  refine hcreate.mono fun id t _ ⟨hid, ht⟩ => ?_
  subst hid ht
  have hself : (s.push .value object).get? (s.nextId .value) = some object :=
    @get?_push_self .value s object
  exact ⟨has_value_iff.mpr ⟨object, hself⟩, hself,
    (aside_create (show Kind.Blank .value object from hblank) hslots).toSameTables.more⟩

/-- A constant is made in a context that is there. -/
theorem keeps_makeConstant (hs : s.Sound) (literal : Literal) (type : Ty)
    {context : Option ContextId} (hcontext : ∀ c, context = some c → s.Has (.context c)) :
    (makeConstant literal type context).Keeps (.edits d) s fun id t => t.Has (.value id) := by
  have hblank : Value.Blank { type, shape := .constant literal, context } :=
    ⟨rfl, rfl, rfl, rfl, rfl, rfl⟩
  refine (keeps_makeValue hs hblank (hblank.holdsOnly (fun c hc => hasIn_some.mpr (hcontext c hc))
    (fun _ h => nomatch h) fun _ h => nomatch h)).mono fun _ _ _ h => h.1

theorem keeps_makeUndef (hs : s.Sound) (type : Ty) {context : Option ContextId}
    (hcontext : ∀ c, context = some c → s.Has (.context c)) :
    (makeUndef type context).Keeps (.edits d) s fun id t => t.Has (.value id) := by
  have hblank : Value.Blank { type, shape := .undef, context } := ⟨rfl, rfl, rfl, rfl, rfl, rfl⟩
  refine (keeps_makeValue hs hblank (hblank.holdsOnly (fun c hc => hasIn_some.mpr (hcontext c hc))
    (fun _ h => nomatch h) fun _ h => nomatch h)).mono fun _ _ _ h => h.1

/-- An argument is made on its own. -/
theorem keeps_makeArgument (hs : s.Sound) (type : Ty) (name : String) :
    (makeArgument type name).Keeps (.edits d) s fun id t => t.Has (.value id) := by
  have hblank : Value.Blank { type, shape := .argument { name } } := ⟨rfl, rfl, rfl, rfl, rfl, rfl⟩
  exact (keeps_makeValue hs hblank (hblank.holdsOnly (fun _ h => nomatch h) (fun _ h => nomatch h)
    fun _ h => nomatch h)).mono fun _ _ _ h => h.1

/-- A global variable is made with an initializer that is there. -/
theorem keeps_makeGlobal (hs : s.Sound) (type : Ty) (name : String) {initializer : Slot}
    (hinitializer : s.HasIn initializer) :
    (makeGlobal type name initializer).Keeps (.edits d) s fun id t => t.Has (.value id) := by
  have hblank : Value.Blank { type, shape := .global { name, initializer } } :=
    ⟨rfl, rfl, rfl, rfl, rfl, rfl⟩
  refine (keeps_makeValue hs hblank (hblank.holdsOnly (fun _ h => nomatch h) (fun g hg => ?_)
    fun _ h => nomatch h)).mono fun _ _ _ h => h.1
  cases hg
  exact ⟨hinitializer, rfl⟩

/-- A new function holds its subprogram and its context, and nothing else yet. -/
theorem keeps_createFunction (hs : s.Sound) (name : String) (result : Ty) (parameters : List Ty)
    {subprogram : Slot} {context : Option ContextId} (hsubprogram : s.HasIn subprogram)
    (hcontext : ∀ c, context = some c → s.Has (.context c)) :
    (create .function { name, result, parameters, subprogram, context }).Keeps (.edits d) s
      fun id t => t.Has (.function id) := by
  let object : Function := { name, result, parameters, subprogram, context }
  have hblank : Kind.Blank .function object := ⟨rfl, rfl, rfl, rfl, rfl⟩
  have hslots : ∀ slot ∈ Kind.slots .function object, s.HasIn slot := Function.holdsOnly_iff.mp {
    subprogram := hsubprogram
    arguments := fun _ h => nomatch h
    blocks := fun _ h => nomatch h
    module := fun _ h => nomatch h
    context := fun c hc => hasIn_some.mpr (hcontext c hc) }
  exact keeps_createHas hs hblank hslots

/-- A function is made with arguments, a subprogram and a context that are there. -/
theorem keeps_makeFunction (hs : s.Sound) (name : String) (result : Ty) {arguments : List Slot}
    {subprogram : Slot} {context : Option ContextId} (harguments : ∀ slot ∈ arguments, s.HasIn slot)
    (hsubprogram : s.HasIn subprogram) (hcontext : ∀ c, context = some c → s.Has (.context c)) :
    (makeFunction name result arguments subprogram context).Keeps (.edits d) s fun id t =>
      t.Has (.function id) := by
  refine (reads_mapM fun _ _ => reads_typeIn).bind fun parameters _ => ?_
  refine (keeps_createFunction hs name result parameters hsubprogram hcontext).bind
    fun id t (ht : Edited d s t) (hhas : t.Has (.function id)) => ?_
  have hneeds : ∀ slot ∈ Placement.needs (.setArguments id arguments), t.HasIn slot :=
    List.forall_mem_cons.mpr
      ⟨hasIn_some.mpr hhas, fun slot hslot => ht.hasIn (harguments slot hslot)⟩
  exact (keeps_place (.setArguments id arguments) (ht.sound hs) hneeds).bind
    fun _ u (hu : Edited d t u) _ => keeps_pure (hu.has hhas)

/-- A block is made with instructions that are there. -/
theorem keeps_makeBlock (hs : s.Sound) (name : String) {insns : List Slot}
    (hinsns : ∀ slot ∈ insns, s.HasIn slot) :
    (makeBlock name insns).Keeps (.edits d) s fun id t => t.Has (.value id) := by
  refine (keeps_formType hs _).bind fun type t (ht : Edited d s t) _ => ?_
  have hblank : Value.Blank { type, shape := .block { name } [] } := ⟨rfl, rfl, rfl, rfl, rfl, rfl⟩
  have hcreate := keeps_makeValue (d := d) (ht.sound hs) hblank (hblank.holdsOnly
    (fun _ h => nomatch h) (fun _ h => nomatch h) fun _ h => nomatch h)
  refine hcreate.bind fun id u (hu : Edited d t u) hid => ?_
  have hneeds : ∀ slot ∈ Placement.needs (.setInstructions id insns), u.HasIn slot :=
    List.forall_mem_cons.mpr
      ⟨hasIn_some.mpr hid.1, fun slot hslot => hu.hasIn (ht.hasIn (hinsns slot hslot))⟩
  exact (keeps_place (.setInstructions id insns) (hu.sound (ht.sound hs)) hneeds).bind
    fun _ q (hq : Edited d u q) _ => keeps_pure (hq.has hid.1)

/-- A user is made with operands that fit it. -/
theorem keeps_makeUser (hs : s.Sound) {operands : List Slot} (hfits : d.Fits s false operands)
    (type : Ty) (name : String) :
    (makeUser operands type name).Keeps (.edits d) s fun id t => t.Has (.value id) := by
  have hblank : Value.Blank { type, shape := .user { name } [] } := ⟨rfl, rfl, rfl, rfl, rfl, rfl⟩
  have hcreate := keeps_makeValue (d := d) hs hblank (hblank.holdsOnly
    (fun _ h => nomatch h) (fun _ h => nomatch h) fun _ h => nomatch h)
  refine hcreate.bind fun id t (ht : Edited d s t) ⟨hid, hself, hmore⟩ => ?_
  have hrecord : t.isRecord id = false := isRecord_eq hself
  have hset : (Edit.setOperands id operands).act.Keeps (.edits d) t _ :=
    keeps_edit (ht.sound hs)
      ⟨⟨_, hself, rfl⟩, by rw [hrecord]; exact hfits.of_more hs.interned hmore,
        fun _ _ => operandsOf_eq hself⟩
  exact Keeps.bind hset fun _ q (hq : Edited d t q) _ => keeps_pure (hq.has hid)

/-! ## Instructions -/

/-- An instruction that is no debug record. -/
theorem keeps_makeProgram (hs : s.Sound) {opcode : Opcode} (hopcode : opcode.binding? = none)
    {operands : List Slot} (hfits : d.Fits s false operands) (type : Ty) (name : String) :
    (makeInstruction opcode operands type name).Keeps (.edits d) s fun id t =>
      t.Has (.value id) := by
  have hrecord : opcode.isDebugValue = false := by
    rw [Opcode.isDebugValue, hopcode]
    rfl
  have hmake := keeps_makeInstruction (d := d) hs (fun _ h => False.elim h)
    (fun b hb => by rw [hopcode] at hb; cases hb) (by rw [hrecord]; exact hfits)
    (fun h => False.elim h) type name
  exact hmake.edits.mono fun id t _ h => h.1

section Instructions

variable (name : String)

theorem keeps_makeArith (hs : s.Sound) (operation : String) {lhs rhs : Slot}
    (hfits : d.Fits s false [lhs, rhs]) :
    (makeArith operation lhs rhs name).Keeps (.edits d) s fun id t => t.Has (.value id) :=
  reads_requireValue.bind fun _ _ => reads_requireValue.bind fun _ _ =>
    reads_require.bind fun _ _ => keeps_makeProgram hs rfl hfits _ name

/-- A join is made without operands. -/
theorem keeps_makePhi (hs : s.Sound) (type : Ty) :
    (makePhi type name).Keeps (.edits d) s fun id t => t.Has (.value id) :=
  keeps_makeProgram hs rfl Discipline.fits_nil type name

theorem keeps_makeSelect (hs : s.Sound) {condition ifTrue ifFalse : Slot}
    (hfits : d.Fits s false [condition, ifTrue, ifFalse]) :
    (makeSelect condition ifTrue ifFalse name).Keeps (.edits d) s fun id t => t.Has (.value id) :=
  reads_requireValue.bind fun _ _ => reads_require.bind fun _ _ =>
    reads_requireValue.bind fun _ _ => reads_requireValue.bind fun _ _ =>
      reads_require.bind fun _ _ => keeps_makeProgram hs rfl hfits _ name

/-- An insertion is made for a vector, and has its type. -/
theorem keeps_makeInsertElement (hs : s.Sound) {vector element index : Slot}
    (hfits : d.Fits s false [vector, element, index]) :
    (makeInsertElement vector element index name).Keeps (.edits d) s fun id t =>
      t.Has (.value id) := by
  refine reads_typeIn.bind fun type _ => ?_
  split
  · exact keeps_throw rfl
  · refine reads_typeIn.bind fun _ _ => reads_require.bind fun _ _ =>
      reads_requireValue.bind fun _ _ => ?_
    split
    · exact keeps_makeProgram hs rfl hfits _ name
    · exact keeps_makeProgram hs rfl hfits _ name
    · exact keeps_throw rfl

/-- An element of a vector has the type of the elements. -/
theorem keeps_makeExtractElement (hs : s.Sound) {vector index : Slot}
    (hfits : d.Fits s false [vector, index]) :
    (makeExtractElement vector index name).Keeps (.edits d) s fun id t => t.Has (.value id) := by
  refine reads_typeIn.bind fun type _ => ?_
  split
  · exact keeps_throw rfl
  · exact keeps_makeProgram hs rfl hfits _ name

theorem keeps_makeBranch (hs : s.Sound) {target : Slot} (hfits : d.Fits s false [target]) :
    (makeBranch target).Keeps (.edits d) s fun id t => t.Has (.value id) :=
  reads_requireValue.bind fun _ _ => reads_require.bind fun _ _ =>
    keeps_makeProgram hs rfl hfits _ ""

theorem keeps_makeBranchIf (hs : s.Sound) {condition ifTrue ifFalse : Slot}
    (hfits : d.Fits s false [condition, ifTrue, ifFalse]) :
    (makeBranchIf condition ifTrue ifFalse).Keeps (.edits d) s fun id t => t.Has (.value id) :=
  reads_requireValue.bind fun _ _ => reads_require.bind fun _ _ =>
    reads_requireValue.bind fun _ _ => reads_require.bind fun _ _ =>
      reads_requireValue.bind fun _ _ => reads_require.bind fun _ _ => reads_require.bind fun _ _ =>
        keeps_makeProgram hs rfl hfits _ ""

theorem keeps_makeReturn (hs : s.Sound) {value : Slot} (hfits : d.Fits s false [value]) :
    (makeReturn value).Keeps (.edits d) s fun id t => t.Has (.value id) :=
  reads_requireValue.bind fun _ _ => keeps_makeProgram hs rfl hfits _ ""

end Instructions

/-- One more operand for an instruction that is no debug record. -/
theorem keeps_pushOperandEdit (hs : s.Sound) {user : ValueId} {operand : Slot}
    (huser : ∃ v i, s.get? user = some v ∧ v.instruction? = some i ∧ i.opcode.binding? = none)
    (hfits : d.Fits s false [operand]) :
    (pushOperand user operand).Keeps (.edits d) s fun _ t => s.MoreTables t ∧
      ∃ v i, t.get? user = some v ∧ v.instruction? = some i ∧ i.opcode.binding? = none := by
  obtain ⟨v, i, hv, hi, hbinding⟩ := huser
  have hrecord : s.isRecord user = false := by
    rw [isRecord_eq hv, Value.isDebugValue, Value.binding?, Value.opcode?, hi]
    show (i.opcode.binding?).isSome = false
    rw [hbinding]
    rfl
  have hedit : (Edit.pushOperand user operand).act.Keeps (.edits d) s _ :=
    keeps_edit hs ⟨⟨v, hv, Value.isUser_of_instruction? hi⟩, by rw [hrecord]; exact hfits, hrecord⟩
  have hreuses : Reuses user (fun _ => True) s (Act.run (pushOperand user operand) s).2 :=
    (keeps_pushOperand (has_value_iff.mpr ⟨v, hv⟩) hs.closed
      (List.forall_mem_singleton.mp hfits.held) trivial).change
  refine Keeps.mono hedit fun _ t _ heq => ?_
  subst heq
  obtain ⟨w, hw, hstays⟩ := hreuses.stays hv
  obtain ⟨j, hj, hjopcode⟩ := hstays.toCarries.instruction? hi
  exact ⟨hreuses.toSameTables.more, w, j, hw, hj, by rw [hjopcode]; exact hbinding⟩

/-- A join gets two operands more, if the object is one. -/
theorem keeps_addIncoming (hs : s.Sound) (phi : Slot) {value block : Slot}
    (hfits : d.Fits s false [value, block]) :
    (addIncoming phi value block).Keeps (.edits d) s fun _ _ => True := by
  have hsingle : ∀ o ∈ [value, block], d.Fits s false [o] := fun o ho =>
    ⟨List.forall_mem_singleton.mpr (hfits.held o ho),
      fun hd => List.forall_mem_singleton.mpr (hfits.value hd o ho), (fun _ h => nomatch h)⟩
  refine reads_instructionIn.bind fun id hid => reads_fetch.bind fun join hjoin => ?_
  obtain ⟨rfl, _⟩ := hid
  dsimp only
  split
  · exact keeps_throw rfl
  · next hphi =>
    have hopcode : join.opcode? = some .phi := by simpa using hphi
    obtain ⟨i, hi, hiopcode⟩ := Option.map_eq_some_iff.mp hopcode
    refine reads_typeIn.bind fun type _ => reads_require.bind fun _ _ => ?_
    refine (keeps_pushOperandEdit hs ⟨join, i, hjoin, hi, by rw [hiopcode]; rfl⟩
      (hsingle value List.mem_cons_self)).bind fun _ t (ht : Edited d s t) ⟨hmore, huser⟩ => ?_
    exact (keeps_pushOperandEdit (ht.sound hs) huser ((hsingle block (List.mem_cons_of_mem _
      List.mem_cons_self)).of_more hs.interned hmore)).any

end SsaDebugInfo
