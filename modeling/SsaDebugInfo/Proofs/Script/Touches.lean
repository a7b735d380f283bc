import SsaDebugInfo.Proofs.Touches
import SsaDebugInfo.Script.Session

/-!
# What operations touch

An operation changes what indexes are made from in at most one way, which can be told from what it
is given (`Operation.description?`). Most operations leave the arrangement as it is: all but those
that place instructions, blocks and arguments, rename something, or move and scatter debug records
(`Operation.rearranges`).

- `Operation.touches_perform`: what an operation touches, however it ends.
- `Operation.still_perform`: where everything stands after an operation that does not rearrange.
- `Session.touches_runOperation` and the like: the same for commands.
-/

namespace SsaDebugInfo.Script

open Act Store

variable {c : Scope} {labels : Labels}

/-! ## What is asked of operations -/

/-- Whether making a value or a function places something in it or puts it somewhere. -/
def NewValue.rearranges : NewValue → Bool
  | .function .. | .block .. | .bind _ _ _ _ _ (.beside ..) => true
  | _ => false

/-- Whether a change places something, takes it out, or renames it. -/
def Change.rearranges : Change → Bool
  | .setArguments .. | .addBlock .. | .setName .. | .append .. | .insert .. | .blockInsertAfter ..
  | .insertAfter .. | .remove .. | .removeFromParent .. | .erase .. | .setInstructions .. => true
  | _ => false

/-- Whether a change may exchange the operands of an insertion. -/
def Change.rebuilds : Change → Bool
  | .setOperand .. | .setOperands .. | .dropReferences .. | .erase .. => true
  | _ => false

/-- Whether an operation makes an insertion, or may exchange the operands of one. -/
def Operation.rebuilds : Operation → Bool
  | .make (.instruction (.insertElement ..) _ _) => true
  | .change what => what.rebuilds
  | _ => false

/-- Whether an operation changes the arrangement. -/
def Operation.rearranges : Operation → Bool
  | .make value => value.rearranges
  | .change what => what.rearranges
  | .records (.migrate ..) | .records (.scatter ..) => true
  | _ => false

/-- The change of what indexes are made from that an operation on metadata asks for. -/
def MetadataOperation.description? (labels : Labels) : MetadataOperation → Option Description
  | extendUnit extended globals subprograms => do
    let slot ← (labels.get extended).toOption
    let globals ← (globals.mapM labels.get).toOption
    let subprograms ← (subprograms.mapM labels.get).toOption
    return .extendUnit (← slot.id? .node) globals subprograms
  | _ => none

/-- The change of what indexes are made from that an operation on modules asks for. -/
def ModuleOperation.description? (labels : Labels) : ModuleOperation → Option Description
  | addFunction container function => do
    let slot ← (labels.get container).toOption
    let function ← (labels.get function).toOption
    return .addFunction (← slot.id? .module) (← function.id? .function)
  | addUnit container unit => do
    let slot ← (labels.get container).toOption
    let unit ← (labels.get unit).toOption
    return .addUnit (← slot.id? .module) unit
  | setSubprogram function subprogram => do
    let function ← (labels.get function).toOption
    let subprogram ← (labels.get subprogram).toOption
    return .setSubprogram (← function.id? .function) subprogram
  | _ => none

/-- The change of what indexes are made from that an operation asks for. -/
def Operation.description? (labels : Labels) : Operation → Option Description
  | .metadata operation => operation.description? labels
  | .modules operation => operation.description? labels
  | _ => none

/-- What an operation may do. -/
def Operation.scope (labels : Labels) (places : Bool) (operation : Operation) : Scope where
  places := places
  nodes _ := True
  describes d := operation.description? labels = some d

section Look

variable {α : Type} {R : Store → Store → Prop} [IsPreorder Store R]

theorem only_look (given : Given) : (labels.look given).Only R :=
  only_ofExcept _

theorem only_lookAll (given : List Given) : (labels.lookAll given).Only R :=
  only_mapM only_look

theorem only_look_bind {given : Given} {second : Slot → Act α}
    (h : ∀ slot, labels.get given = .ok slot → (second slot).Only R) :
    (labels.look given >>= second).Only R := by
  unfold Labels.look
  cases hget : labels.get given with
  | ok slot => exact h slot hget
  | error f => exact only_throw f

theorem lookAll_eq (given : List Given) :
    labels.lookAll given = MonadExcept.ofExcept (given.mapM labels.get) := by
  induction given with
  | nil => rfl
  | cons g rest ih =>
    unfold Labels.lookAll at ih ⊢
    rw [List.mapM_cons, List.mapM_cons, ih]
    unfold Labels.look
    cases labels.get g with
    | error f => rfl
    | ok slot =>
      cases rest.mapM labels.get with
      | error f => rfl
      | ok slots => rfl

theorem only_lookAll_bind {given : List Given} {second : List Slot → Act α}
    (h : ∀ slots, given.mapM labels.get = .ok slots → (second slots).Only R) :
    (labels.lookAll given >>= second).Only R := by
  rw [lookAll_eq]
  cases hget : given.mapM labels.get with
  | ok slots => exact h slots hget
  | error f => exact only_throw f

theorem only_idIn_bind {kind : Kind} {slot : Slot} {second : Id kind → Act α}
    (h : ∀ id, slot.id? kind = some id → (second id).Only R) :
    (idIn kind slot >>= second).Only R := by
  unfold idIn
  cases hid : slot.id? kind with
  | some id => exact h id hid
  | none => exact only_throw _

end Look

/-! ## Metadata and modules -/

theorem reports_chosenIndex (module : ModuleId) (choice : IndexChoice) :
    (chosenIndex module choice).Only Reports := by
  cases choice with
  | remembered => exact reports_cachedIndex module
  | new times => exact only_freshIndex module times

/-- A module by its label. -/
theorem only_lookModule (given : Given) : (labels.look given >>= moduleIn).Only (Touches c) :=
  (only_look given).bind fun _ => only_idIn _ _

section Nodes

variable (hnodes : ∀ n, c.nodes n)

include hnodes

theorem touches_createNode {n : Node} (h : n.handleOf? = none) :
    (create .node n).Only (Touches c) :=
  touches_create ⟨h, hnodes n⟩

theorem touches_handle (slot : Slot) : (handleOf slot).Only (Touches c) :=
  touches_handleOf (fun n _ => hnodes n) slot

theorem touches_performMetadata {operation : MetadataOperation}
    (h : ∀ d, operation.description? labels = some d → c.describes d) :
    (performMetadata labels operation).Only (Touches c) := by
  have hcreation : ∀ n : Node, n.handleOf? = none → (do
      return .creation (.node (← create .node n)) : Act Outcome).Only (Touches c) := fun n hn =>
    (touches_createNode hnodes hn).bind fun _ => only_pure _
  cases operation with
  | context => exact Only.bind (touches_create trivial) fun _ => only_pure _
  | file filename directory => exact hcreation _ rfl
  | node isScope =>
    refine hcreation _ ?_
    split
    · rfl
    · rfl
  | unit source producer globals subprograms =>
    refine (only_look _).bind fun _ => (only_lookAll _).bind fun _ => ?_
    exact (only_lookAll _).bind fun _ => hcreation _ rfl
  | extendUnit unit globals subprograms =>
    show ((labels.look unit >>= nodeIn) >>= _ : Act Outcome).Only (Touches c)
    rw [bind_assoc]
    refine only_look_bind fun slot hunit => only_idIn_bind fun id hid => ?_
    refine only_lookAll_bind fun gs hglobals => only_lookAll_bind fun sps hsubprograms => ?_
    have hdescribes : c.describes (.extendUnit id gs sps) := by
      refine h _ ?_
      simp [MetadataOperation.description?, hunit, hid, hglobals, hsubprograms, Except.toOption]
    refine (only_fetch id).bind fun n => ?_
    split
    · exact (only_update (touches_describe _ hdescribes hnodes)).bind fun _ => only_pure _
    · exact only_throw _
  | subprogram name source line parent linkage =>
    exact (only_look _).bind fun _ => (only_look _).bind fun _ => hcreation _ rfl
  | location line column parent inlinedAt =>
    exact (only_look _).bind fun _ => (only_look _).bind fun _ => hcreation _ rfl
  | localVariable name parent source line argument =>
    exact (only_look _).bind fun _ => (only_look _).bind fun _ => hcreation _ rfl
  | globalDescriptor name parent source line storage =>
    refine (only_look _).bind fun _ => (only_look _).bind fun _ => ?_
    exact (only_look _).bind fun _ => hcreation _ rfl
  | expression elements => exact hcreation _ rfl
  | describeExpression expression =>
    refine (only_look _).bind fun _ => (only_ask _).bind fun _ => ?_
    exact (only_ofExcept _).bind fun _ => only_pure _
  | «show» object => exact (only_look _).bind fun _ => only_pure _
  | filename object => exact (only_look _).bind fun _ => (only_ask _).bind fun _ => only_pure _

theorem touches_performModules {operation : ModuleOperation}
    (h : ∀ d, operation.description? labels = some d → c.describes d)
    (hindex : operation.description? labels = none → ∀ d, ¬ c.describes d) :
    (performModules labels operation).Only (Touches c) := by
  cases operation with
  | module name context layout =>
    have hmodule : ∀ context layout, (do
        return .creation (.module (← makeModule name context layout)) : Act Outcome).Only
          (Touches c) := fun context layout =>
      Only.bind (touches_create ⟨rfl, rfl, rfl⟩) fun _ => only_pure _
    refine Only.bind ((only_look _).bind (only_optionally (only_idIn _))) fun context => ?_
    dsimp only
    split
    · exact (touches_createLayout _).bind fun _ => hmodule _ _
    · exact (touches_createLayout _).bind fun _ => hmodule _ _
    · exact Only.bind ((only_look _).bind (only_idIn _)) fun _ => hmodule _ _
  | addFunction module function =>
    refine only_look_bind fun slot hmodule => only_look_bind fun slot' hfunction => ?_
    refine only_idIn_bind fun f hf => only_idIn_bind fun m hm => ?_
    refine Only.bind (touches_addFunction (h _ ?_) hnodes) fun _ => only_pure _
    simp [ModuleOperation.description?, hmodule, hfunction, hf, hm, Except.toOption]
  | addGlobal module global =>
    refine (only_look _).bind fun _ => (only_look _).bind fun _ => (only_idIn _ _).bind fun _ => ?_
    exact (touches_addGlobal _ _).bind fun _ => only_pure _
  | addUnit module unit =>
    refine only_look_bind fun slot hmodule => only_look_bind fun slot' hunit => ?_
    refine only_idIn_bind fun m hm => ?_
    refine Only.bind (touches_addUnit (h _ ?_) hnodes) fun _ => only_pure _
    simp [ModuleOperation.description?, hmodule, hunit, hm, Except.toOption]
  | hasState module =>
    exact (only_lookModule _).bind fun _ => (only_fetch _).bind fun _ => only_pure _
  | getState module =>
    exact Only.bind ((only_lookModule _).bind only_requireState) fun _ => only_pure _
  | createState module =>
    exact Only.bind ((only_lookModule _).bind touches_ensureState) fun _ => only_pure _
  | loadState module =>
    exact Only.bind ((only_lookModule _).bind touches_loadState) fun _ => only_pure _
  | index module choice =>
    refine (only_lookModule _).bind fun _ => ?_
    refine Only.bind ((reports_chosenIndex _ _).touches (fun _ _ => hnodes _) (hindex rfl)) ?_
    exact fun _ => only_pure _
  | descriptor module global choice =>
    refine (only_lookModule _).bind fun _ => (only_look _).bind fun _ => ?_
    refine Only.bind ((reports_chosenIndex _ _).touches (fun _ _ => hnodes _) (hindex rfl)) ?_
    exact fun _ => (only_ask _).bind fun _ => only_pure _
  | resetIndex module =>
    exact Only.bind ((only_lookModule _).bind touches_resetIndex) fun _ => only_pure _
  | hasDebugInfo module =>
    exact (only_lookModule _).bind fun _ => (only_fetch _).bind fun _ => only_pure _
  | subprogramOf function =>
    refine Only.bind ((only_look _).bind (only_idIn _)) fun _ => ?_
    exact (only_fetch _).bind fun _ => only_pure _
  | setSubprogram function subprogram =>
    refine only_look_bind fun slot hfunction => only_look_bind fun subprogram hsubprogram => ?_
    dsimp only
    split
    · exact only_throw _
    · next id =>
      refine (only_update (touches_describe (.setSubprogram id subprogram) (h _ ?_) hnodes)).bind
        fun _ => only_pure _
      simp [ModuleOperation.description?, hfunction, hsubprogram, Slot.id?, Except.toOption]
    · exact only_pure _

end Nodes

/-! ## Values -/

theorem touches_makeNew (name : String) {form : NewInstruction} {loc : Given}
    (hrebuilds : (Operation.make (.instruction form name loc)).rebuilds = true →
      c.rebuilds = true) :
    (makeNew labels name form).Only (Touches c) := by
  cases form with
  | plain operands type =>
    refine (only_lookAll _).bind fun _ => (touches_formType _).bind fun _ => ?_
    exact touches_makeInstruction (fun _ => by nofun) _ _ _
  | arith operation lhs rhs =>
    exact (only_look _).bind fun _ => (only_look _).bind fun _ => touches_makeArith _ _ _ _
  | phi type => exact (touches_formType _).bind fun _ =>
    touches_makeInstruction (fun _ => by nofun) _ _ _
  | select condition ifTrue ifFalse =>
    refine (only_look _).bind fun _ => (only_look _).bind fun _ => ?_
    exact (only_look _).bind fun _ => touches_makeSelect _ _ _ _
  | insertElement vector element index =>
    refine (only_look _).bind fun _ => (only_look _).bind fun _ => ?_
    exact (only_look _).bind fun _ => touches_makeInsertElement (hrebuilds rfl) _ _ _ _
  | extractElement vector index =>
    exact (only_look _).bind fun _ => (only_look _).bind fun _ => touches_makeExtractElement _ _ _
  | branch target => exact (only_look _).bind fun _ => touches_makeBranch _
  | branchIf condition ifTrue ifFalse =>
    refine (only_look _).bind fun _ => (only_look _).bind fun _ => ?_
    exact (only_look _).bind fun _ => touches_makeBranchIf _ _ _
  | ret value => exact (only_look _).bind fun _ => touches_makeReturn _
  | debugValue wrapper var expression offset =>
    refine (only_look _).bind fun _ => (only_look _).bind fun _ => ?_
    exact (only_look _).bind fun _ => touches_makeDebugValue _ _ _

/-- A context that is given or not. -/
theorem only_lookContext (given : Given) :
    (labels.look given >>= optionally contextIn).Only (Touches c) :=
  (only_look given).bind (only_optionally (only_idIn _))

section Nodes

variable (hnodes : ∀ n, c.nodes n)

include hnodes

theorem touches_performMake {value : NewValue}
    (hplaces : value.rearranges = true → c.places = true)
    (hrebuilds : (Operation.make value).rebuilds = true → c.rebuilds = true) :
    (performMake labels value).Only (Touches c) := by
  have hcreation : ∀ v : Value, v.standing = {} → v.seat? = none → v.operands = [] → (do
      return .creation (.value (← create .value v)) : Act Outcome).Only (Touches c) :=
    fun v hstanding hseat hoperands =>
      (touches_createValue hstanding hseat hoperands).bind fun _ => only_pure _
  cases value with
  | constant literal type context =>
    refine (touches_formType _).bind fun type => (only_lookContext _).bind fun context => ?_
    exact hcreation _ rfl rfl rfl
  | undef type context =>
    refine (touches_formType _).bind fun type => (only_lookContext _).bind fun context => ?_
    exact hcreation _ rfl rfl rfl
  | argument name type => exact (touches_formType _).bind fun _ => hcreation _ rfl rfl rfl
  | global name type initializer =>
    exact (touches_formType _).bind fun _ => (only_look _).bind fun _ => hcreation _ rfl rfl rfl
  | function name result arguments subprogram context =>
    refine (only_lookAll _).bind fun _ => (touches_formType _).bind fun _ => ?_
    refine (only_look _).bind fun _ => (only_lookContext _).bind fun _ => ?_
    exact (touches_makeFunction (hplaces rfl) _ _ _ _ _).bind fun _ => only_pure _
  | block name instructions =>
    exact (only_lookAll _).bind fun _ => (touches_makeBlock (hplaces rfl) _ _).bind fun _ =>
      only_pure _
  | user operands type name =>
    refine (only_lookAll _).bind fun _ => (touches_formType _).bind fun _ => ?_
    exact (touches_makeUser _ _ _).bind fun _ => only_pure _
  | instruction form name loc =>
    refine (touches_makeNew name hrebuilds).bind fun id => (only_look _).bind fun loc => ?_
    have hloc : (update id (·.mapInstruction fun i => { i with loc })).Only (Touches c) :=
      touches_updateInstruction (fun _ => rfl) fun _ => rfl
    exact hloc.bind fun _ => only_pure _
  | bind value var expression loc offset place =>
    refine (only_look _).bind fun _ => (only_look _).bind fun _ => ?_
    refine (only_look _).bind fun _ => (only_look _).bind fun _ => ?_
    cases place with
    | detached =>
      exact (touches_makeRecord (fun n _ => hnodes n) _ _ _).bind fun _ => only_pure _
    | beside before after =>
      refine (only_look _).bind fun _ => (only_look _).bind fun _ => ?_
      exact (touches_bindValue (hplaces rfl) (fun n _ => hnodes n) _ _ _ _ _).bind fun _ =>
        only_pure _

end Nodes

theorem touches_changeInstruction (slot : Slot) {f : Instruction → Instruction}
    (hcore : ∀ i, (f i).opcode.core = i.opcode.core) (hblock : ∀ i, (f i).block = i.block) :
    (changeInstruction slot f).Only (Touches c) := by
  unfold changeInstruction
  split
  · exact only_throw _
  · exact touches_updateInstruction hcore hblock
  · exact only_pure _

theorem touches_changeBinding (slot : Slot) {f : Binding → Binding}
    (h : ∀ binding, (f binding).offset = binding.offset) :
    (changeBinding slot f).Only (Touches c) := by
  refine touches_changeInstruction slot (fun i => ?_) fun i => ?_
  · split
    · next binding heq =>
      rw [heq]
      show Opcode.debugValue _ = Opcode.debugValue _
      rw [h binding]
    · rfl
  · split
    · rfl
    · rfl

theorem touches_rename (hnodes : ∀ n, c.nodes n) (hplaces : c.places = true) (slot : Slot)
    (name : String) : (rename slot name).Only (Touches c) := by
  unfold rename
  split
  · exact only_throw _
  · refine Only.bind (touches_place hplaces (fun o => o.core_mapSite _)
      fun o => o.operands_mapSite _) fun _ => ?_
    exact touches_place hplaces (fun o => o.core_mapGlobal fun _ => rfl)
      fun o => o.operands_mapGlobal _
  · exact touches_enroll hplaces (fun _ => rfl) (fun _ => rfl) fun _ => rfl
  · next id =>
    have hmodule : ∀ m : Module, m.Changes { m with name := name } := fun _ =>
      ⟨rfl, rfl, rfl, rfl, .inl rfl⟩
    exact touches_update hmodule
  · refine touches_update fun n => ⟨?_, hnodes _⟩
    cases n <;> rfl
  · exact only_pure _

theorem only_blockOrClash (slot : Slot) (clashes : Opcode → Bool) :
    (blockOrClash slot clashes).Only (Touches c) := by
  refine only_get.bind fun s => ?_
  split
  · split
    · exact only_throw _
    · exact only_throw _
  · exact only_blockIn _

theorem only_requireInstruction (slot : Slot) : (requireInstruction slot).Only (Touches c) := by
  refine only_get.bind fun s => ?_
  split
  · exact only_pure _
  · exact only_throw _

theorem touches_performChange (hnodes : ∀ n, c.nodes n) {what : Change}
    (hplaces : what.rearranges = true → c.places = true)
    (hrebuilds : what.rebuilds = true → c.rebuilds = true) :
    (performChange labels what).Only (Touches c) := by
  cases what with
  | setArguments function arguments =>
    refine Only.bind ((only_look _).bind (only_idIn _)) fun id => (only_lookAll _).bind fun _ => ?_
    exact ((places_touches (hplaces rfl)).setArguments _ _).bind fun _ => only_pure _
  | addBlock function block =>
    refine (only_look _).bind fun _ => (only_look _).bind fun _ => (only_idIn _ _).bind fun _ => ?_
    exact (only_valueIn _).bind fun _ =>
      ((places_touches (hplaces rfl)).addBlock _ _).bind fun _ => only_pure _
  | addIncoming phi value block =>
    refine (only_look _).bind fun _ => (only_look _).bind fun _ => (only_look _).bind fun _ => ?_
    exact (touches_addIncoming _ _ _).bind fun _ => only_pure _
  | setLoc instruction loc =>
    refine (only_look _).bind fun slot => (only_look _).bind fun loc => ?_
    have hloc : (changeInstruction slot fun i => { i with loc }).Only (Touches c) :=
      touches_changeInstruction slot (fun _ => rfl) fun _ => rfl
    exact hloc.bind fun _ => only_pure _
  | setVariable record var =>
    refine (only_look _).bind fun _ => (only_look _).bind fun var => ?_
    exact Only.bind (touches_changeBinding _ fun _ => rfl) fun _ => only_pure _
  | setExpression record expression =>
    refine (only_look _).bind fun _ => (only_look _).bind fun expression => ?_
    exact Only.bind (touches_changeBinding _ fun _ => rfl) fun _ => only_pure _
  | setName object name =>
    refine (only_look _).bind fun slot => ?_
    exact (touches_rename hnodes (hplaces rfl) slot name).bind fun _ => only_pure _
  | setOperand user index value =>
    refine (only_look _).bind fun _ => (only_look _).bind fun _ => (only_userIn _).bind fun _ => ?_
    exact (touches_setOperand (hrebuilds rfl) _ _ _).bind fun _ => only_pure _
  | setOperands user values =>
    refine (only_look _).bind fun _ => (only_lookAll _).bind fun _ => ?_
    exact (only_userIn _).bind fun _ =>
      (touches_setOperands (hrebuilds rfl) _ _).bind fun _ => only_pure _
  | dropReferences user =>
    refine Only.bind (Only.bind ((only_look _).bind only_userIn) fun _ => ?_) fun _ => only_pure _
    exact touches_setOperands (hrebuilds rfl) _ _
  | append block instruction =>
    refine (only_look _).bind fun _ => (only_look _).bind fun _ => (only_blockIn _).bind fun _ => ?_
    exact (only_requireInstruction _).bind fun _ =>
      ((places_touches (hplaces rfl)).appendTo _ _).bind fun _ => only_pure _
  | insert block instruction before =>
    refine (only_look _).bind fun _ => (only_look _).bind fun _ => (only_look _).bind fun _ => ?_
    refine (only_blockIn _).bind fun _ => (only_requireInstruction _).bind fun _ => ?_
    exact ((places_touches (hplaces rfl)).insertBefore _ _ _).bind fun _ => only_pure _
  | blockInsertAfter block instruction after =>
    refine (only_look _).bind fun _ => (only_look _).bind fun _ => (only_look _).bind fun _ => ?_
    refine (only_blockOrClash _ _).bind fun _ => (only_requireInstruction _).bind fun _ => ?_
    exact ((places_touches (hplaces rfl)).insertAfter _ _ _).bind fun _ => only_pure _
  | insertAfter instruction after =>
    refine (only_look _).bind fun _ => (only_look _).bind fun _ => only_get.bind fun s => ?_
    dsimp only
    split
    · exact only_throw _
    · exact (only_instructionIn _).bind fun _ =>
        ((places_touches (hplaces rfl)).placeAfter _ _).bind fun _ => only_pure _
  | remove block instruction =>
    refine (only_look _).bind fun _ => (only_look _).bind fun _ => (only_blockIn _).bind fun _ => ?_
    exact ((places_touches (hplaces rfl)).removeFrom _ _).bind fun _ => only_pure _
  | removeFromParent instruction =>
    refine Only.bind (Only.bind ((only_look _).bind only_instructionIn) fun _ => ?_) fun _ =>
      only_pure _
    exact (places_touches (hplaces rfl)).removeFromParent _
  | erase instruction =>
    refine Only.bind (Only.bind ((only_look _).bind only_instructionIn) fun _ => ?_) fun _ =>
      only_pure _
    exact touches_erase (hplaces rfl) (hrebuilds rfl) _
  | setInstructions block instructions =>
    refine (only_look _).bind fun _ => (only_lookAll _).bind fun _ => ?_
    refine (only_blockIn _).bind fun _ => ?_
    exact ((places_touches (hplaces rfl)).setInstructions _ _).bind fun _ => only_pure _

/-! ## Questions, records, layouts and diagnostics -/

theorem only_readPart (slot : Slot) (part : Option Part) :
    (readPart slot part).Only (Touches c) := by
  unfold readPart
  split
  · refine (only_fetch _).bind fun v => ?_
    split
    · exact only_throw _
    · exact only_throw _
    · exact only_throw _
    · split
      · refine Only.bind ?_ fun _ => only_pure _
        exact (only_operandAt _ _).bind fun _ => only_ask _
      · split
        · exact only_operandAt _ _
        · exact only_throw _
    · exact only_throw _
  · refine (only_fetch _).bind fun n => ?_
    split
    · exact only_throw _
    · exact only_throw _
  · exact only_throw _

theorem touches_performQuestion (question : Question) :
    (performQuestion labels question).Only (Touches c) := by
  cases question with
  | instructionAt block index =>
    refine (only_look _).bind fun slot => ?_
    split
    · exact only_throw _
    · refine (only_blockIn _).bind fun _ => (only_fetch _).bind fun _ => ?_
      dsimp only
      split
      · exact only_throw _
      · exact only_pure _
  | next instruction =>
    refine Only.bind (Only.bind ((only_look _).bind only_instructionIn) fun _ => ?_)
      fun _ => only_pure _
    exact only_nextInstruction _
  | indexOf block instruction =>
    refine (only_look _).bind fun _ => (only_look _).bind fun _ => ?_
    exact (only_blockOrClash _ _).bind fun _ => (only_indexIn _ _).bind fun _ => only_pure _
  | instructions container =>
    refine (only_look _).bind fun slot => ?_
    split
    · refine Only.bind ((only_fetch _).bind fun f => ?_) fun _ => only_pure _
      refine Only.bind (only_mapM fun block => ?_) fun _ => only_pure _
      exact (only_blockIn _).bind fun _ => (only_fetch _).bind fun _ => only_pure _
    · exact (only_blockIn _).bind fun _ => (only_fetch _).bind fun _ => only_pure _
  | predecessors block =>
    refine Only.bind ((only_look _).bind only_blockIn) fun _ => ?_
    exact only_get.bind fun _ => only_pure _
  | incoming phi =>
    refine Only.bind ((only_look _).bind only_instructionIn) fun _ => ?_
    refine (only_fetch _).bind fun v => ?_
    dsimp only
    split
    · exact only_throw _
    · exact only_pure _
  | part object part =>
    exact (only_look _).bind fun _ => (only_readPart _ _).bind fun _ => only_pure _
  | info object => exact (only_look _).bind fun _ => only_pure _
  | names function =>
    exact Only.bind ((only_look _).bind (only_idIn _)) fun _ =>
      (only_fetch _).bind fun _ => only_pure _
  | opcode instruction =>
    exact Only.bind ((only_look _).bind only_instructionIn) fun _ =>
      (only_fetch _).bind fun _ => only_pure _
  | isConstant value =>
    exact Only.bind ((only_look _).bind only_valueIn) fun _ =>
      (only_fetch _).bind fun _ => only_pure _
  | contextOf object =>
    exact Only.bind ((only_look _).bind fixes_touches.contextOf) fun _ => only_pure _
  | operandText value => exact (only_look _).bind fun _ => (only_ask _).bind fun _ => only_pure _
  | dump object locs => exact (only_look _).bind fun _ => only_pure _
  | escapeName name => exact only_pure _

section Nodes

variable (hnodes : ∀ n, c.nodes n)

include hnodes

theorem touches_wrapperKey (value node context : Given) :
    (wrapperKey labels value node context).Only (Touches c) := by
  refine (only_look _).bind fun value => (only_look _).bind fun node => ?_
  refine (only_look _).bind fun context => ?_
  have hnode : ∀ id : ContextId, (do
      let node ← if node.isSome then nodeIn node else handleOf value
      return (id, node) : Act (ContextId × NodeId)).Only (Touches c) := by
    intro id
    split
    · exact (only_idIn _ _).bind fun _ => only_pure _
    · exact (touches_handle hnodes _).bind fun _ => only_pure _
  dsimp only
  split
  · exact (only_idIn _ _).bind hnode
  · exact (fixes_touches.contextOf _).bind hnode

theorem touches_performRecords {operation : RecordOperation}
    (hplaces : (Operation.records operation).rearranges = true → c.places = true) :
    (performRecords labels operation).Only (Touches c) := by
  cases operation with
  | handle value =>
    refine Only.bind ((only_look _).bind (touches_handle hnodes)) fun _ => ?_
    exact (only_fetch _).bind fun _ => (only_ask _).bind fun _ => only_pure _
  | handleIfExists value =>
    refine Only.bind ((only_look _).bind fixes_touches.handleIfExists) fun o => ?_
    split
    · exact only_pure _
    · exact (only_fetch _).bind fun _ => (only_ask _).bind fun _ => only_pure _
  | wrapper value node context =>
    exact (touches_wrapperKey hnodes _ _ _).bind fun _ =>
      (furnishes_touches.wrapperOf _ _).bind fun _ => only_pure _
  | wrapperIfExists value node context =>
    exact (touches_wrapperKey hnodes _ _ _).bind fun _ =>
      (only_wrapperIfExists _ _).bind fun _ =>
      only_pure _
  | tables context =>
    refine Only.bind ((only_look _).bind (only_idIn _)) fun _ => ?_
    exact (only_fetch _).bind fun _ => only_get.bind fun _ => only_pure _
  | resolve instruction depth =>
    refine (only_look _).bind fun _ => (only_require _).bind fun _ => ?_
    refine Only.bind ?_ fun _ => only_pure _
    exact (only_instructionIn _).bind fun _ => only_get.bind fun _ => only_pure _
  | find value => exact Only.bind ((only_look _).bind touches_findRecord) fun _ => only_pure _
  | migrate old new =>
    refine (only_look _).bind fun _ => (only_look _).bind fun _ => ?_
    exact (touches_migrate (hplaces rfl) (fun n _ => hnodes n) _ _).bind fun _ => only_pure _
  | chain value => exact (only_look _).bind fun _ => (only_ask _).bind fun _ => only_pure _
  | scatter value =>
    refine Only.bind ((only_look _).bind fun slot => ?_) fun _ => only_pure _
    exact touches_scatter (hplaces rfl) (fun n _ => hnodes n) (fun _ => hnodes _) slot

end Nodes

theorem only_chosenLayout (layout module : Given) :
    (chosenLayout labels layout module).Only (Touches c) := by
  unfold chosenLayout
  split
  · exact (only_look _).bind (only_idIn _)
  · exact (only_look _).bind fun _ => (only_idIn _ _).bind fun _ =>
      (only_fetch _).bind fun _ => only_pure _

theorem touches_performLayouts (operation : LayoutOperation) :
    (performLayouts labels operation).Only (Touches c) := by
  cases operation with
  | layout text => exact (touches_createLayout _).bind fun _ => only_pure _
  | size layout module type =>
    refine (only_chosenLayout _ _).bind fun _ => (touches_formType _).bind fun _ => ?_
    exact (touches_sizeUnder _ _).bind fun _ => only_pure _
  | pointerSize layout module =>
    exact (only_chosenLayout _ _).bind fun _ => (touches_sizeUnder _ _).bind fun _ => only_pure _
  | sizes layout module =>
    exact (only_chosenLayout _ _).bind fun _ => (only_fetch _).bind fun _ => only_pure _
  | typeText type => exact (touches_formType _).bind fun _ => only_pure _

section Diagnostics

theorem reports_emitAbout (emitter : Emitter) (subject : Option Subject) (target : Slot)
    (reason : String) (choice : LevelChoice) :
    (emitAbout emitter subject target reason choice).Only Reports := by
  refine (only_ofExcept _).bind fun subject => ?_
  cases subject with
  | resource => exact reports_emitOnInstruction _ _ _ _
  | instruction =>
    dsimp only
    split
    all_goals first
      | exact only_throw _
      | exact (only_pure _).bind fun _ => reports_emitOnInstruction _ _ _ _
  | function =>
    dsimp only
    split
    all_goals first
      | exact only_throw _
      | exact (only_pure _).bind fun _ => reports_emitOnFunction _ _ _ _
  | global =>
    dsimp only
    split
    all_goals first
      | exact only_throw _
      | exact (only_pure _).bind fun _ => reports_emitOnGlobal _ _ _ _
  | program =>
    dsimp only
    split
    all_goals first
      | exact only_throw _
      | exact (only_pure _).bind fun _ => reports_emitOnContext _ _ _

variable (hnodes : ∀ n, c.nodes n) (hdescribes : ∀ d, ¬ c.describes d)

include hnodes hdescribes

theorem touches_performDiagnostics (operation : DiagnosticOperation) :
    (performDiagnostics labels operation).Only (Touches c) := by
  cases operation with
  | engine collecting errorsAreFatal =>
    exact Only.bind (touches_create trivial) fun _ => only_pure _
  | emitter engine depth =>
    refine Only.bind ((only_look _).bind (only_optionally (only_idIn _))) fun _ => ?_
    refine (touches_makeEmitter _ _).bind fun _ => (only_fetch _).bind fun _ => ?_
    exact (only_fetch _).bind fun _ => only_pure _
  | emit emitter subject target reason level =>
    refine (only_look _).bind fun _ => (only_look _).bind fun _ => (only_idIn _ _).bind fun _ => ?_
    refine (only_fetch _).bind fun _ => ?_
    refine Only.bind ((reports_emitAbout _ _ _ _ _).touches (fun _ _ => hnodes _) hdescribes) ?_
    exact fun _ => only_pure _
  | diagnostic level reason arguments function location notes =>
    refine (only_look _).bind fun _ => (only_look _).bind fun _ => (only_lookAll _).bind fun _ => ?_
    refine Only.bind ((reports_makeDiagnostic _ _).touches (fun _ _ => hnodes _) hdescribes) ?_
    exact fun _ => only_pure _
  | report diagnostic => exact Only.bind ((only_look _).bind (only_idIn _)) fun _ => only_pure _
  | process engine diagnostic =>
    refine (only_look _).bind fun _ => (only_look _).bind fun _ => (only_idIn _ _).bind fun _ => ?_
    refine Only.bind ((reports_process _ _).touches (fun _ _ => hnodes _) hdescribes) ?_
    exact fun _ => only_pure _
  | received engine =>
    exact Only.bind (Only.bind ((only_look _).bind (only_idIn _)) only_receivedLines) fun _ =>
      only_pure _

end Diagnostics

/-! ## All operations -/

/-- What an operation touches, however it ends, in a scope that admits what it describes, places and
rebuilds. -/
theorem Operation.touches_within {operation : Operation} (hnodes : ∀ n, c.nodes n)
    (hdescribes : ∀ d, operation.description? labels = some d ↔ c.describes d)
    (hplaces : operation.rearranges = true → c.places = true)
    (hrebuilds : operation.rebuilds = true → c.rebuilds = true) :
    (operation.perform labels).Only (Touches c) := by
  have hindex : operation.description? labels = none → ∀ d, ¬ c.describes d := fun hnone d hd =>
    nomatch hnone.symm.trans ((hdescribes d).mpr hd)
  have hdescribes := fun d => (hdescribes d).mp
  cases operation with
  | metadata operation => exact touches_performMetadata hnodes hdescribes
  | modules operation => exact touches_performModules hnodes hdescribes hindex
  | make value => exact touches_performMake hnodes hplaces hrebuilds
  | change what => exact touches_performChange hnodes hplaces hrebuilds
  | ask question => exact touches_performQuestion question
  | records operation => exact touches_performRecords hnodes hplaces
  | layouts operation => exact touches_performLayouts operation
  | diagnostics operation => exact touches_performDiagnostics hnodes (hindex rfl) operation

/-- What an operation touches, however it ends. Values are placed only where it rearranges them. -/
theorem Operation.touches_perform {operation : Operation} {places : Bool}
    (h : operation.rearranges = true → places = true) :
    (operation.perform labels).Only (Touches (operation.scope labels places)) :=
  operation.touches_within (fun _ => trivial) (fun _ => Iff.rfl) h fun _ => rfl

/-- An operation that is not one of those that change the arrangement leaves it as it is, however it
ends. -/
theorem Operation.still_perform {operation : Operation} (h : operation.rearranges = false) :
    (operation.perform labels).Only Unmoved := by
  have htouches : (operation.perform labels).Only (Touches (operation.scope labels false)) :=
    operation.touches_perform fun hrearranges => nomatch h.symm.trans hrearranges
  exact fun s => (htouches s).still rfl

namespace Session

variable {session : Session}

theorem touches_act {α : Type} (session : Session) {action : Act α} (h : action.Only (Touches c)) :
    Touches c session.store (session.act action).2.store :=
  h session.store

theorem touches_enter (hplaces : c.places = true) (container made : Slot) :
    (enter container made).Only (Touches c) := by
  refine only_get.bind fun s => ?_
  split
  · exact (only_blockIn _).bind fun _ => (places_touches hplaces).appendTo _ _
  · exact (only_idIn _ _).bind fun _ => (places_touches hplaces).addBlock _ _
  · exact only_pure ()

/-- Attaching notes does to the store what making an engine attach them does. -/
theorem only_openNotes {R : Store → Store → Prop} [IsPreorder Store R]
    (hpush : ∀ id notes, (pushNotes id notes).Only R) (engine : Given) (notes : List Given) :
    R session.store (session.openNotes engine notes).2.store := by
  have hact : ∀ {action : Act (EngineId × List Slot)}, action.Only R →
      R session.store (session.act action).2.store := fun h => h session.store
  unfold openNotes
  dsimp only
  split
  all_goals
    next heq =>
    refine congrArg (fun outcome => outcome.2.store) heq ▸ hact ?_
    refine (only_look _).bind fun slot => (only_idIn _ _).bind fun id => ?_
    refine (only_fetch id).bind fun e => ?_
    split
    · exact only_throw _
    · exact (only_lookAll _).bind fun _ => (hpush _ _).bind fun _ => only_pure _

theorem touches_openNotes (engine : Given) (notes : List Given) :
    Touches c session.store (session.openNotes engine notes).2.store :=
  only_openNotes touches_pushNotes engine notes

theorem touches_closeNotes (engine : EngineId) (count : Nat) (escaped : Bool) :
    Touches c session.store (session.closeNotes engine count escaped).store := by
  unfold closeNotes
  split
  · exact .refl
  · exact touches_popNotes engine count session.store

/-- Attaching notes leaves everything where it stands. -/
theorem still_openNotes (engine : Given) (notes : List Given) :
    session.store.Unmoved (session.openNotes engine notes).2.store :=
  (touches_openNotes (c := { nodes := fun _ => True }) engine notes).still rfl

/-- Giving notes back leaves everything where it stands. -/
theorem still_closeNotes (engine : EngineId) (count : Nat) (escaped : Bool) :
    session.store.Unmoved (session.closeNotes engine count escaped).store :=
  (touches_closeNotes (c := { nodes := fun _ => True }) engine count escaped).still rfl

theorem store_drop (label : Label) : (session.drop label).2.store = session.store := by
  unfold drop
  split
  · rfl
  · rfl

end Session

end SsaDebugInfo.Script
