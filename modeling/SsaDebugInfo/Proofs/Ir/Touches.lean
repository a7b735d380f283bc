import SsaDebugInfo.Proofs.Store.Touch
import SsaDebugInfo.Ir.Build

/-!
# What the actions on the IR touch

Action by action, as far as a `Scope` admits it. What concerns operands and uses and what makes
values place nothing; placing, taking out and moving leave the core of values and functions.

- `only_setFunction`: what is looked at of an action that moves a value to a function.
- `Act.Places`: what is looked at of all actions that place something.
- `touches_…`: the actions one by one.
- `Act.Only.still`: actions that place nothing leave everything where it is.
-/

namespace SsaDebugInfo

open Act Store

variable {c : Scope}

/-- An action that places nothing leaves everything where it is. -/
theorem Act.Only.still {α : Type} {act : Act α} {added : Node → Prop}
    (h : act.Only (Touches { nodes := added })) : act.Only (Still added) :=
  fun s => (h s).still rfl

/-- A change of what is not essential to an object. -/
theorem touches_update {kind : Kind} {id : Id kind} {f : Object kind → Object kind}
    (h : ∀ o, kind.Changes c o (f o)) : (update id f).Only (Touches c) :=
  only_update fun _ => .single (.change id h)

/-- A new object that nothing stands in. -/
theorem touches_create {kind : Kind} {object : Object kind} (h : kind.Starts c object) :
    (create kind object).Only (Touches c) :=
  only_create fun _ => .single (.create h)

/-- A value of which neither the core changes nor the place, and which keeps its operands. -/
theorem touches_updateValue {v : ValueId} {f : Value → Value} (hcore : ∀ o, (f o).core = o.core)
    (hstanding : ∀ o, (f o).standing = o.standing) (hsite : ∀ o, (f o).site? = o.site?)
    (hoperands : ∀ o, (f o).operands = o.operands) : (update v f).Only (Touches c) :=
  touches_update fun o => ⟨hcore o, fun _ => ⟨hstanding o, hsite o⟩, fun _ _ => hoperands o⟩

theorem only_indexIn {R : Store → Store → Prop} [IsPreorder Store R] (block : ValueId)
    (slot : Slot) : (indexIn block slot).Only R := by
  refine (only_fetch block).bind fun v => ?_
  split
  · exact only_pure _
  · exact only_throw _

/-- Moving a value to a function changes the value and what functions know of names. -/
theorem only_setFunction {R : Store → Store → Prop} [IsPreorder Store R] {v : ValueId}
    {g : Option FunctionId}
    (hvalue : ∀ f : Site → Site,
      (∀ site, (f site).function = site.function ∨ (f site).function = g) →
        ∀ s, R s (s.modify v (·.mapSite f)))
    (hregister : ∀ (f : FunctionId) (base : String) s, R s (s.modify f (·.register base)))
    (hunregister : ∀ (f : FunctionId) (name : String) s, R s (s.modify f (·.unregister name))) :
    (setFunction v g).Only R := by
  have hrelease : ∀ (f : FunctionId) (name : String), (releaseName f name).Only R := by
    intro f name
    refine (only_fetch f).bind fun o => ?_
    split
    · exact only_update (hunregister f name)
    · exact only_throw _
  have hregister : ∀ (f : FunctionId) (name : String), (registerName f name).Only R := fun f name =>
    (only_fetch f).bind fun o => (only_update (hregister f name)).bind fun _ => only_pure _
  refine (only_fetch v).bind fun o => ?_
  split
  · exact only_throw _
  · next site _ =>
    have hmove : (update v (·.mapSite fun site => { site with function := g })).Only R :=
      only_update (hvalue _ fun _ => .inr rfl)
    have hname : ∀ new : FunctionId, (do
        let name ← registerName new site.name
        update v (·.mapSite fun site => { site with name }) : Act Unit).Only R := fun new =>
      (hregister _ _).bind fun _ => only_update (hvalue _ fun _ => .inl rfl)
    split
    · dsimp only
      split
      · refine (hrelease _ _).bind fun _ => hmove.bind fun _ => ?_
        split
        · exact hname _
        · exact only_pure _
      · refine hmove.bind fun _ => ?_
        split
        · exact hname _
        · exact only_pure _
    · exact only_pure _

theorem touches_record (entry : Entry) : (record entry).Only (Touches c) :=
  only_modify fun s => .single (.annotate s.labelTypes (s.journal ++ [entry]))

/-- Forming a type counts labels, and touches no object. -/
theorem touches_formType (t : Ty) : (formType t).Only (Touches c) := by
  refine (only_require _).bind fun _ => only_get_bind fun s => ?_
  exact .single (.annotate (t.withFreshLabels s.labelTypes).2 s.journal)

/-! ## Operands and uses -/

/-- A value with other uses. -/
theorem touches_updateUses {v : ValueId} {f : Value → List ValueId} :
    (update v fun o => { o with uses := f o }).Only (Touches c) :=
  touches_updateValue (fun _ => rfl) (fun _ => rfl) (fun _ => rfl) fun _ => rfl

theorem touches_addUse (user : ValueId) (operand : Slot) :
    (addUse user operand).Only (Touches c) := by
  refine (only_valueIn operand).bind fun id => ?_
  refine touches_updateValue (fun o => ?_) (fun o => ?_) (fun o => ?_) fun o => ?_
  · split <;> rfl
  · split <;> rfl
  · split <;> rfl
  · split <;> rfl

theorem touches_dropUse (user : ValueId) (operand : Slot) :
    (dropUse user operand).Only (Touches c) := by
  refine (only_valueIn operand).bind fun id => (only_fetch id).bind fun v => ?_
  split
  · exact touches_updateUses
  · exact only_throw _

/-- A user enters the uses of one operand, and leaves those of another that it has no longer. -/
theorem touches_moveUse (user : ValueId) (old : Slot) (operands : List Slot) (operand : Slot) :
    (do
      if old ∉ operands then dropUse user old
      addUse user operand : Act Unit).Only (Touches c) := by
  split
  · exact (touches_dropUse user old).bind fun _ => touches_addUse user operand
  · exact touches_addUse user operand

/-- The operands of a user may be exchanged: those of insertions may be, or it is none. -/
def Scope.Exchanges (c : Scope) (s : Store) (user : ValueId) : Prop :=
  c.rebuilds = false → ∀ o, s.get? user = some o → o.isInsertElement = false

namespace Scope.Exchanges

variable {s t : Store} {user : ValueId}

theorem of_rebuilds (h : c.rebuilds = true) : c.Exchanges s user :=
  fun hnot => nomatch h.symm.trans hnot

theorem of_get? {o : Value} (ho : s.get? user = some o) (h : o.isInsertElement = false) :
    c.Exchanges s user := by
  intro _ o' ho'
  rwa [← Option.some_inj.mp (ho.symm.trans ho')]

theorem of_any (h : (s.get? user).any Value.isInsertElement = false) : c.Exchanges s user :=
  fun _ o ho => by rwa [ho] at h

/-- What a value was made as does not change. -/
theorem touches (h : c.Exchanges s user) (hst : Touches c s t) (huser : s.Has (.value user)) :
    c.Exchanges t user := by
  intro hnot p hp
  obtain ⟨o, ho⟩ := has_value_iff.mp huser
  obtain ⟨p', hp', hcore⟩ := hst.persists ho
  obtain rfl := Option.some_inj.mp (hp.symm.trans hp')
  have hcore : p.core = o.core := hcore
  rw [← p.isInsertElement_core, hcore, o.isInsertElement_core, h hnot o ho]

end Scope.Exchanges

/-- A user with other operands. -/
theorem touches_exchange {s : Store} {user : ValueId} (h : c.Exchanges s user)
    (f : List Slot → List Slot) : Touches c s (s.modify user (·.mapOperands f)) := by
  -- only what the user is in this store is looked at
  have hspared : s.modify user (·.mapOperands f) = s.modify user fun o =>
      if c.rebuilds = false ∧ o.isInsertElement = true then o else o.mapOperands f :=
    modify_congr fun o ho => (if_neg fun ⟨hnot, hinsert⟩ =>
      nomatch hinsert.symm.trans (h hnot o ho)).symm
  rw [hspared]
  refine .single (.change user fun o => ?_)
  split
  · exact ⟨rfl, fun _ => ⟨rfl, rfl⟩, fun _ _ => rfl⟩
  · next hfree =>
    exact ⟨o.core_mapOperands f, fun _ => ⟨o.standing_mapOperands f, o.site?_mapOperands f⟩,
      fun hnot hinsert => absurd ⟨hnot, hinsert⟩ hfree⟩

section Exchanges

variable {s : Store} {user : ValueId}

/-- A user takes other operands, if they may be exchanged. -/
theorem touches_setOperands_of (h : c.Exchanges s user) (operands : List Slot) :
    Touches c s ((setOperands user operands).run s).2 := by
  cases ho : s.get? user with
  | none =>
    rw [setOperands, run_bind, run_fetch, ho]
    exact .refl
  | some o =>
    have hdrop : (o.operands.eraseDups.forM (dropUse user)).Only (Touches c) :=
      only_forM fun operand _ => touches_dropUse user operand
    have hadd : (operands.eraseDups.forM (addUse user)).Only (Touches c) :=
      only_forM fun operand _ => touches_addUse user operand
    rw [setOperands, run_fetch_bind ho]
    refine Ends.left (P := Touches c s) ((hdrop.ends s).bind fun _ t ht => ends_update_bind ?_)
    have hthere := h.touches ht (has_value_iff.mpr ⟨o, ho⟩)
    exact hadd.after (ht.trans (touches_exchange hthere fun _ => operands))

/-- A user takes another operand, if its operands may be exchanged. -/
theorem touches_setOperand_of (h : c.Exchanges s user) (index : Int) (operand : Slot) :
    Touches c s ((setOperand user index operand).run s).2 := by
  cases ho : s.get? user with
  | none =>
    rw [setOperand, run_bind, run_fetch, ho]
    exact .refl
  | some o =>
    rw [setOperand, run_fetch_bind ho]
    dsimp only
    split
    · exact .refl
    · next place _ =>
      have hput := touches_exchange h fun _ => o.operands.set place operand
      exact hput.trans (touches_moveUse user _ _ operand _)

/-- A user takes one more operand, if its operands may be exchanged. -/
theorem touches_pushOperand_of (h : c.Exchanges s user) (operand : Slot) :
    Touches c s ((pushOperand user operand).run s).2 :=
  (touches_exchange h (· ++ [operand])).trans (touches_addUse user operand _)

end Exchanges

section Rebuilds

variable (hrebuilds : c.rebuilds = true)

include hrebuilds

theorem touches_setOperands (user : ValueId) (operands : List Slot) :
    (setOperands user operands).Only (Touches c) :=
  fun _ => touches_setOperands_of (.of_rebuilds hrebuilds) operands

theorem touches_setOperand (user : ValueId) (index : Int) (operand : Slot) :
    (setOperand user index operand).Only (Touches c) :=
  fun _ => touches_setOperand_of (.of_rebuilds hrebuilds) index operand

theorem touches_pushOperand (user : ValueId) (operand : Slot) :
    (pushOperand user operand).Only (Touches c) :=
  fun _ => touches_pushOperand_of (.of_rebuilds hrebuilds) operand

end Rebuilds

/-- Other operands leave everything where it is. -/
theorem still_setOperands {added : Node → Prop} (user : ValueId) (operands : List Slot) :
    (setOperands user operands).Only (Still added) :=
  (touches_setOperands (c := { nodes := added }) rfl user operands).still

theorem still_setOperand {added : Node → Prop} (user : ValueId) (index : Int) (operand : Slot) :
    (setOperand user index operand).Only (Still added) :=
  (touches_setOperand (c := { nodes := added }) rfl user index operand).still

theorem only_userIn (slot : Slot) : (userIn slot).Only (Touches c) := by
  refine (only_valueIn slot).bind fun id => (only_fetch id).bind fun v => ?_
  split
  · exact only_pure _
  · exact only_throw _

theorem only_operandAt (user : ValueId) (place : Nat) :
    (operandAt user place).Only (Touches c) := by
  refine (only_fetch user).bind fun v => ?_
  split
  · exact only_pure _
  · exact only_throw _

/-! ## New values -/

/-- A new value that stands nowhere. -/
theorem touches_createValue {v : Value} (hstanding : v.standing = {}) (hseat : v.seat? = none)
    (hoperands : v.operands = []) : (create .value v).Only (Touches c) :=
  touches_create ⟨hstanding, hseat, hoperands⟩

/-- A new user gets its operands, unless it is an insertion and these may get none. -/
theorem touches_createUser {v : Value} (hstanding : v.standing = {}) (hseat : v.seat? = none)
    (hoperands : v.operands = []) (h : c.rebuilds = false → v.isInsertElement = false)
    (operands : List Slot) : (do
      let id ← create .value v
      setOperands id operands
      return id : Act ValueId).Only (Touches c) := by
  intro s
  refine (touches_createValue hstanding hseat hoperands s).trans ?_
  have hnew : (s.push .value v).get? (s.nextId .value) = some v := by rw [get?_push, if_pos rfl]
  have hset : c.Exchanges (s.push .value v) (s.nextId .value) := fun hnot o ho =>
    Option.some_inj.mp (hnew.symm.trans ho) ▸ h hnot
  exact Ends.left (P := Touches c (s.push .value v)) <|
    (Ends.of_left (touches_setOperands_of hset operands)).bind fun _ _ ht => ends_pure ht

theorem touches_makeUser (operands : List Slot) (type : Ty) (name : String) :
    (makeUser operands type name).Only (Touches c) :=
  touches_createUser rfl rfl rfl (fun _ => rfl) operands

/-- An insertion is made only in a scope that rebuilds vectors. -/
theorem touches_makeInstruction {opcode : Opcode} (h : c.rebuilds = false → opcode ≠ .insertElement)
    (operands : List Slot) (type : Ty) (name : String) :
    (makeInstruction opcode operands type name).Only (Touches c) :=
  touches_createUser rfl rfl rfl (fun hnot => by
    rw [Value.isInsertElement]
    exact beq_eq_false_iff_ne.mpr fun heq => h hnot (Option.some_inj.mp heq)) operands

theorem only_requireValue (slot : Slot) : (requireValue slot).Only (Touches c) := by
  refine only_get.bind fun s => ?_
  split
  · exact only_pure _
  · exact only_throw _

theorem touches_makeArith (operation : String) (lhs rhs : Slot) (name : String) :
    (makeArith operation lhs rhs name).Only (Touches c) := by
  refine (only_requireValue lhs).bind fun left => (only_requireValue rhs).bind fun right => ?_
  exact (only_require _).bind fun _ => touches_makeInstruction (fun _ => by nofun) _ _ _

theorem touches_makeSelect (condition ifTrue ifFalse : Slot) (name : String) :
    (makeSelect condition ifTrue ifFalse name).Only (Touches c) := by
  refine (only_requireValue condition).bind fun _ => (only_require _).bind fun _ => ?_
  refine (only_requireValue ifTrue).bind fun yes => (only_requireValue ifFalse).bind fun no => ?_
  exact (only_require _).bind fun _ => touches_makeInstruction (fun _ => by nofun) _ _ _

theorem touches_makeInsertElement (hrebuilds : c.rebuilds = true) (vector element index : Slot)
    (name : String) :
    (makeInsertElement vector element index name).Only (Touches c) := by
  have hopcode : c.rebuilds = false → Opcode.insertElement ≠ .insertElement :=
    fun hnot => nomatch hrebuilds.symm.trans hnot
  refine (only_typeIn vector).bind fun type => ?_
  split
  · exact only_throw _
  · refine (only_typeIn element).bind fun _ => (only_require _).bind fun _ => ?_
    refine (only_requireValue index).bind fun v => ?_
    split
    · exact touches_makeInstruction hopcode _ _ _
    · exact touches_makeInstruction hopcode _ _ _
    · exact only_throw _

theorem touches_makeExtractElement (vector index : Slot) (name : String) :
    (makeExtractElement vector index name).Only (Touches c) := by
  refine (only_typeIn vector).bind fun type => ?_
  split
  · exact only_throw _
  · exact touches_makeInstruction (fun _ => by nofun) _ _ _

theorem touches_makeBranch (target : Slot) : (makeBranch target).Only (Touches c) :=
  (only_requireValue target).bind fun _ => (only_require _).bind fun _ =>
    touches_makeInstruction (fun _ => by nofun) _ _ _

theorem touches_makeBranchIf (condition ifTrue ifFalse : Slot) :
    (makeBranchIf condition ifTrue ifFalse).Only (Touches c) := by
  refine (only_requireValue condition).bind fun _ => (only_require _).bind fun _ => ?_
  refine (only_requireValue ifTrue).bind fun _ => (only_require _).bind fun _ => ?_
  refine (only_requireValue ifFalse).bind fun _ => (only_require _).bind fun _ => ?_
  exact (only_require _).bind fun _ => touches_makeInstruction (fun _ => by nofun) _ _ _

theorem touches_makeReturn (value : Slot) : (makeReturn value).Only (Touches c) :=
  (only_requireValue value).bind fun _ => touches_makeInstruction (fun _ => by nofun) _ _ _

theorem touches_makeDebugValue (wrapper : Slot) (binding : Binding) (name : String) :
    (makeDebugValue wrapper binding name).Only (Touches c) := by
  refine (only_requireValue wrapper).bind fun v => ?_
  split
  · exact only_throw _
  · refine (only_fetch _).bind fun _ => (only_require _).bind fun _ => ?_
    exact touches_makeInstruction (fun _ => by nofun) _ _ _

/-- Only a join takes operands in this way, and a join is no insertion. -/
theorem touches_addIncoming (phi value block : Slot) :
    (addIncoming phi value block).Only (Touches c) := by
  intro s
  refine Ends.left (P := Touches c s) ?_
  refine Reads.bind_ends reads_instructionIn (fun _ => .refl) fun id _ => ?_
  refine Reads.bind_ends reads_fetch (fun _ => .refl) fun join hjoin => ?_
  dsimp only
  split
  · exact ends_throw .refl
  · next hphi =>
    have hphi : join.opcode? = some .phi := by simpa using hphi
    have hexchanges : c.Exchanges s id :=
      .of_get? hjoin (by rw [Value.isInsertElement, hphi]; rfl)
    refine Reads.bind_ends reads_typeIn (fun _ => .refl) fun _ _ => ?_
    refine Reads.bind_ends reads_require (fun _ => .refl) fun _ _ => ?_
    refine (Ends.of_left (touches_pushOperand_of hexchanges value)).bind fun _ t ht => ?_
    have hthere := hexchanges.touches ht (has_value_iff.mpr ⟨join, hjoin⟩)
    exact Ends.of_left (ht.trans (touches_pushOperand_of hthere block))

/-- An instruction that does something else, or comes from elsewhere. -/
theorem touches_updateInstruction {id : ValueId} {f : Instruction → Instruction}
    (hcore : ∀ i, (f i).opcode.core = i.opcode.core) (hblock : ∀ i, (f i).block = i.block) :
    (update id (·.mapInstruction f)).Only (Touches c) :=
  touches_updateValue (fun o => o.core_mapInstruction hcore)
    (fun o => o.standing_mapInstruction hblock) (fun o => o.site?_mapInstruction f)
    fun o => o.operands_mapInstruction f

/-! ## Placements -/

theorem only_nextInstruction (insn : ValueId) : (nextInstruction insn).Only (Touches c) := by
  refine only_get.bind fun s => ?_
  split
  · exact only_pure _
  · exact (only_indexIn _ _).bind fun _ => (only_fetch _).bind fun _ => only_pure _

/-- The changes that placing is made of are such as a relation says: a value keeps its core and its
operands, a function registers or releases a name, or gets other lists. -/
structure Act.Places (R : Store → Store → Prop) : Prop where
  value : ∀ {v : ValueId} {f : Value → Value}, (∀ o, (f o).core = o.core) →
    (∀ o, (f o).operands = o.operands) → ∀ s, R s (s.modify v f)
  register : ∀ (f : FunctionId) (base : String) s, R s (s.modify f (·.register base))
  unregister : ∀ (f : FunctionId) (name : String) s, R s (s.modify f (·.unregister name))
  roster : ∀ (f : FunctionId) (r : Function → Roster) s, R s (s.modify f fun o =>
    { o with arguments := (r o).arguments, blocks := (r o).blocks })

namespace Act.Places

variable {R : Store → Store → Prop}

/-- A value that keeps its core and its operands. -/
theorem update (h : Places R) {v : ValueId} {f : Value → Value} (hcore : ∀ o, (f o).core = o.core)
    (hoperands : ∀ o, (f o).operands = o.operands) : (update v f).Only R :=
  only_update (h.value hcore hoperands)

theorem updateInstructions (h : Places R) {block : ValueId} {f : List Slot → List Slot} :
    (SsaDebugInfo.update block (·.mapInstructions f)).Only R :=
  h.update (fun o => o.core_mapInstructions f) fun o => o.operands_mapInstructions f

variable [IsPreorder Store R] (h : Places R)

include h

/-- Linking a value to a function is made of single changes of places. -/
theorem setFunction (v : ValueId) (function : Option FunctionId) :
    (setFunction v function).Only R :=
  only_setFunction (fun f _ => h.value (fun o => o.core_mapSite f) fun o => o.operands_mapSite f)
    h.register h.unregister

/-- So is linking an instruction to a block. -/
theorem setBlock (insn : ValueId) (block : Option ValueId) : (setBlock insn block).Only R := by
  refine Only.bind (h.update (fun o => o.core_mapInstruction fun _ => rfl)
    fun o => o.operands_mapInstruction _) fun _ => ?_
  split
  · exact h.setFunction insn none
  · exact (only_fetch _).bind fun _ => h.setFunction insn _

/-- So is detaching it. -/
theorem detach (slot : Slot) : (detach slot).Only R := by
  refine (only_valueIn slot).bind fun id => (only_fetch id).bind fun v => ?_
  split
  · exact h.setBlock id none
  · split
    · exact h.update (fun o => o.core_mapSite _) fun o => o.operands_mapSite _
    · exact only_throw _

theorem appendTo (block insn : ValueId) : (appendTo block insn).Only R :=
  (h.setBlock insn (some block)).bind fun _ => h.updateInstructions

/-- So is placing it in front of another one. -/
theorem insertBefore (block insn : ValueId) (before : Slot) :
    (insertBefore block insn before).Only R :=
  (h.setBlock insn (some block)).bind fun _ => (only_indexIn block before).bind fun _ =>
    h.updateInstructions

theorem insertAfter (block insn : ValueId) (after : Slot) : (insertAfter block insn after).Only R :=
  (h.setBlock insn (some block)).bind fun _ => (only_indexIn block after).bind fun _ =>
    h.updateInstructions

theorem placeAfter (insn : ValueId) (after : Slot) : (placeAfter insn after).Only R := by
  refine only_get.bind fun s => (only_require _).bind fun _ => ?_
  refine (only_instructionIn after).bind fun target => only_get.bind fun t => ?_
  split
  · exact only_throw _
  · exact h.insertAfter _ insn after

/-- So is taking it out of the block. -/
theorem removeFrom (block : ValueId) (slot : Slot) : (removeFrom block slot).Only R :=
  (only_fetch block).bind fun _ => (only_require _).bind fun _ => (h.detach slot).bind fun _ =>
    h.updateInstructions

theorem removeFromParent (insn : ValueId) : (removeFromParent insn).Only R := by
  refine only_get.bind fun s => ?_
  split
  · exact h.removeFrom _ _
  · exact only_pure ()

/-- So is exchanging the list of a block: each entry is detached or linked in turn. -/
theorem setInstructions (block : ValueId) (insns : List Slot) :
    (setInstructions block insns).Only R := by
  refine (only_fetch block).bind fun v => (only_forM fun slot _ => h.detach slot).bind fun _ => ?_
  refine h.updateInstructions.bind fun _ => only_forM fun slot _ => ?_
  exact (only_instructionIn slot).bind fun id => h.setBlock id (some block)

/-- So is exchanging the arguments of a function. -/
theorem setArguments (function : FunctionId) (arguments : List Slot) :
    (setArguments function arguments).Only R := by
  have hset : ∀ (slot : Slot) (function : Option FunctionId),
      (do SsaDebugInfo.setFunction (← valueIn slot) function : Act Unit).Only R :=
    fun slot function => (only_valueIn slot).bind fun id => h.setFunction id function
  refine (only_fetch function).bind fun f => ?_
  refine (only_forM fun slot _ => hset slot none).bind fun _ => ?_
  refine (only_update (h.roster function fun f => ⟨arguments, f.blocks⟩)).bind fun _ => ?_
  exact only_forM fun slot _ => hset slot (some function)

theorem addBlock (function : FunctionId) (block : ValueId) : (addBlock function block).Only R :=
  (h.setFunction block (some function)).bind fun _ =>
    only_update (h.roster function fun f => ⟨f.arguments, f.blocks ++ [block]⟩)

end Act.Places

/-- Values stay what they are. -/
def Store.SameForms (s t : Store) : Prop :=
  ∀ v, t.formOf? v = s.formOf? v

instance : IsPreorder Store SameForms where
  refl _ _ := rfl
  trans _ _ _ hst htu v := (htu v).trans (hst v)

/-- Placing makes nothing of a value that it was not. -/
theorem places_sameForms : Act.Places SameForms where
  value {v f} hcore _ s :=
    formOf?_modify fun o => by rw [← Value.form?_core, hcore, Value.form?_core]
  register _ _ _ _ := formOf?_modify_function _
  unregister _ _ _ _ := formOf?_modify_function _
  roster _ _ _ _ := formOf?_modify_function _

section Placements

variable (hplaces : c.places = true)

include hplaces

/-- Where values may be placed, only the core of a value that changes is to be looked at. -/
theorem touches_place {v : ValueId} {f : Value → Value} (hcore : ∀ o, (f o).core = o.core)
    (hoperands : ∀ o, (f o).operands = o.operands) : (update v f).Only (Touches c) :=
  touches_update fun o =>
    ⟨hcore o, fun h => (nomatch hplaces.symm.trans h), fun _ _ => hoperands o⟩

/-- Where values may be placed, a function may get other values and names. -/
theorem touches_enroll {id : FunctionId} {f : Function → Function}
    (hresult : ∀ o, (f o).result = o.result) (hparameters : ∀ o, (f o).parameters = o.parameters)
    (hsubprogram : ∀ o, (f o).subprogram = o.subprogram) : (update id f).Only (Touches c) :=
  touches_update fun o =>
    ⟨hresult o, hparameters o, hsubprogram o, fun h => nomatch hplaces.symm.trans h⟩

/-- Placing is done by such changes. -/
theorem places_touches : Places (Touches c) where
  value hcore hoperands := touches_place hplaces hcore hoperands
  register _ _ := touches_enroll hplaces (fun _ => rfl) (fun _ => rfl) fun _ => rfl
  unregister _ _ := touches_enroll hplaces (fun _ => rfl) (fun _ => rfl) fun _ => rfl
  roster _ _ := touches_enroll hplaces (fun _ => rfl) (fun _ => rfl) fun _ => rfl

/-- Erasing an insertion takes its operands away, so that only a scope that rebuilds vectors allows
it. -/
theorem touches_erase (hrebuilds : c.rebuilds = true) (insn : ValueId) :
    (erase insn).Only (Touches c) := by
  refine ((places_touches hplaces).removeFromParent insn).bind fun _ => ?_
  refine Only.bind (touches_setOperands hrebuilds insn []) fun _ => ?_
  exact only_get.bind fun _ => only_require _

theorem touches_makeFunction (name : String) (result : Ty) (arguments : List Slot)
    (subprogram : Slot) (context : Option ContextId) :
    (makeFunction name result arguments subprogram context).Only (Touches c) := by
  refine (only_mapM only_typeIn).bind fun parameters => ?_
  refine Only.bind (touches_create ⟨rfl, rfl⟩) fun id => ?_
  exact ((places_touches hplaces).setArguments id arguments).bind fun _ => only_pure id

theorem touches_makeBlock (name : String) (insns : List Slot) :
    (makeBlock name insns).Only (Touches c) := by
  refine (touches_formType _).bind fun type => ?_
  refine Only.bind (touches_createValue rfl rfl rfl) fun id => ?_
  exact ((places_touches hplaces).setInstructions id insns).bind fun _ => only_pure id

end Placements

end SsaDebugInfo
