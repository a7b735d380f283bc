import SsaDebugInfo.Proofs.Act.Conduct
import SsaDebugInfo.Records.Scatter

/-!
# Faults without an explanation

Making a record and placing it may fault in many ways, but every fault on the way tells of something
that is missing or not as required, and has no explanation of its own (`Fault.isLack`). So a fault
with one comes from somewhere else.

- `Silent`, `Act.Silent`: answers, and actions, whose faults have no explanation.
- `Act.silent_findRecord`: finding records.
- `Act.silent_bindValue`, `Act.silent_scatterOne`: making and placing records.
- `Store.silent_operandText`: writing a value as an operand.
-/

namespace SsaDebugInfo

variable {α β : Type}

/-- Whether a fault tells of something that is missing or not as required, and explains nothing. -/
def Fault.isLack : Fault → Bool
  | unknownLevel | unsizedType _ | exceedsPiece .. | endlessChain | raised _ | unknownLabel _
  | unknownCommand _ => false
  | _ => true

/-- A fault for something missing has no explanation. -/
theorem Fault.message_of_isLack {f : Fault} (h : f.isLack = true) : f.message = "" := by
  cases f with
  | unknownLevel => cases h
  | unsizedType => cases h
  | exceedsPiece => cases h
  | raised => cases h
  | unknownLabel => cases h
  | unknownCommand => cases h
  | _ => rfl

/-- An answer, or a fault without an explanation. -/
def Silent (result : Except Fault α) : Prop :=
  ∀ f, result = .error f → f.isLack = true

theorem silent_ok (a : α) : Silent (.ok a) := fun _ h => nomatch h

theorem silent_error {f : Fault} (h : f.isLack = true) : Silent (.error f : Except Fault α) := by
  rintro _ ⟨⟩
  exact h

theorem silent_found (o : Option α) : Silent (found o) := by
  cases o with
  | none => exact silent_error rfl
  | some a => exact silent_ok a

/-- Steps in sequence have no explanation for a fault if neither has. -/
theorem Silent.bind {x : Except Fault α} {f : α → Except Fault β} (hx : Silent x)
    (hf : ∀ a, Silent (f a)) : Silent (x >>= f) := by
  cases x with
  | ok a => exact hf a
  | error e => exact silent_error (hx e rfl)

/-- A chain without an end has an explanation, so that it is another fault. -/
theorem Silent.ne_endless {result : Except Fault α} (h : Silent result) {f : Fault}
    (hf : result = .error f) : f ≠ .endlessChain := by
  rintro rfl
  exact nomatch h _ hf

/-! ## Questions -/

/-- A literal that is no number faults without an explanation. -/
theorem silent_toInt (literal : Literal) : Silent literal.toInt := by
  cases literal with
  | text text =>
    show Silent ((Text.Numeral.read? text).elim (.error .notANumeral) .ok)
    cases Text.Numeral.read? text with
    | none => exact silent_error rfl
    | some n => exact silent_ok n
  | absent => exact silent_error rfl
  | list items => exact silent_error rfl
  | record fields => exact silent_error rfl
  | _ => exact silent_ok _

namespace Store

variable (s : Store)

/-- By induction on the depth, as for plain faults. -/
theorem silent_operandTextWithin (fuel : Nat) (id : ValueId) :
    Silent (s.operandTextWithin fuel id) := by
  induction fuel generalizing id with
  | zero => exact silent_error rfl
  | succ fuel ih =>
    have hnode : ∀ n : NodeId, Silent (s.printNodeWith (s.operandTextWithin fuel) n) := by
      intro n
      refine (silent_found _).bind fun o => ?_
      split
      · exact silent_ok _
      · split
        · exact ih _
        · exact silent_ok _
      · split
        · exact ih _
        · exact silent_ok _
      · exact silent_ok _
    refine (silent_found _).bind fun v => ?_
    split
    case h_3 => exact (hnode _).bind fun _ => silent_ok _
    all_goals exact silent_ok _

theorem silent_operandText (id : ValueId) : Silent (s.operandText id) :=
  s.silent_operandTextWithin _ id

theorem silent_parentPiece (expression : Slot) : Silent (s.parentPiece expression) := by
  unfold parentPiece
  split
  · exact silent_ok _
  · exact (silent_found _).bind fun _ => silent_ok _

/-- An index that is no constant faults without an explanation. -/
theorem silent_indexLiteral (slot : Slot) : Silent (s.indexLiteral slot) := by
  unfold indexLiteral
  split
  · split
    · exact silent_ok _
    · exact silent_ok _
    · split
      · exact silent_error rfl
      · exact silent_error rfl
      · exact silent_error rfl
    · exact silent_error rfl
  · split
    · exact silent_error rfl
    · exact silent_error rfl
  · exact silent_error rfl

theorem silent_describedName (r : ValueId) : Silent (s.describedName r) :=
  (silent_found _).bind fun _ => silent_found _

end Store

namespace Act

/-- Wherever the action starts, a fault of it has no explanation. -/
def Silent (act : Act α) : Prop :=
  ∀ s, SsaDebugInfo.Silent (act.run s).1

theorem Silent.bind {act : Act α} {second : α → Act β} (h : act.Silent)
    (hnext : ∀ a, (second a).Silent) : (act >>= second).Silent := by
  intro s
  rw [run_bind]
  have hs := h s
  cases hrun : act.run s with
  | mk result t =>
    rw [hrun] at hs
    cases result with
    | ok a => exact hnext a t
    | error f => exact silent_error (hs f rfl)

theorem silent_pure (a : α) : (pure a : Act α).Silent := fun _ => silent_ok a

theorem silent_throw {f : Fault} (h : f.isLack = true) : (throw f : Act α).Silent :=
  fun _ => silent_error h

theorem silent_get : (get : Act Store).Silent := fun s => silent_ok s

/-- A question has no explanation for a fault if it has none in any store. -/
theorem silent_ask {question : Store → Except Fault α}
    (h : ∀ s, SsaDebugInfo.Silent (question s)) : (ask question).Silent := by
  intro s
  rw [run_ask]
  exact h s

theorem silent_require (holds : Bool) : (require holds).Silent := by
  cases holds with
  | true => exact silent_pure ()
  | false => exact silent_throw rfl

theorem silent_fetch {kind : Kind} (id : Id kind) : (fetch id).Silent :=
  silent_ask fun _ => silent_found _

theorem silent_update {kind : Kind} (id : Id kind) (f : Object kind → Object kind) :
    (update id f).Silent := fun _ => silent_ok ()

theorem silent_create (kind : Kind) (object : Object kind) : (create kind object).Silent :=
  fun s => silent_ok (s.nextId kind)

/-- An action on each entry of a list has no explanation if it has none on one. -/
theorem silent_forM {f : α → Act Unit} {l : List α} (h : ∀ a, (f a).Silent) :
    (l.forM f).Silent := by
  induction l with
  | nil => exact silent_pure ()
  | cons a rest ih => exact (h a).bind fun _ => ih

theorem silent_valueIn (slot : Slot) : (valueIn slot).Silent :=
  silent_ask fun _ => silent_found _

theorem silent_instructionIn (slot : Slot) : (instructionIn slot).Silent :=
  silent_ask fun _ => silent_found _

/-! ## Operands, names and places -/

/-- Exchanging operands faults without an explanation: a use may be missing. -/
theorem silent_setOperands (user : ValueId) (operands : List Slot) :
    (setOperands user operands).Silent := by
  have hdrop : ∀ slot, (dropUse user slot).Silent := by
    intro slot
    refine (silent_valueIn slot).bind fun id => (silent_fetch id).bind fun v => ?_
    split
    · exact silent_update _ _
    · exact silent_throw rfl
  have hadd : ∀ slot, (addUse user slot).Silent := fun slot =>
    (silent_valueIn slot).bind fun id => silent_update id _
  refine (silent_fetch user).bind fun v => (silent_forM hdrop).bind fun _ => ?_
  exact (silent_update user _).bind fun _ => silent_forM hadd

theorem silent_operandAt (user : ValueId) (place : Nat) : (operandAt user place).Silent := by
  refine (silent_fetch user).bind fun v => ?_
  split
  · exact silent_pure _
  · exact silent_throw rfl

/-- A change of functions faults without an explanation: a name may not be registered. -/
theorem silent_setFunction (v : ValueId) (function : Option FunctionId) :
    (setFunction v function).Silent := by
  have hrelease : ∀ f name, (releaseName f name).Silent := by
    intro f name
    refine (silent_fetch f).bind fun o => ?_
    split
    · exact silent_update _ _
    · exact silent_throw rfl
  have hregister : ∀ f base, (registerName f base).Silent := fun f base =>
    (silent_fetch f).bind fun _ => (silent_update f _).bind fun _ => silent_pure _
  refine (silent_fetch v).bind fun o => ?_
  split
  · exact silent_throw rfl
  · next site _ =>
    have hname : ∀ new : FunctionId, (do
        let name ← registerName new site.name
        update v (·.mapSite fun site => { site with name }) : Act Unit).Silent :=
      fun new => (hregister new _).bind fun _ => silent_update v _
    split
    · dsimp only
      split
      · refine (hrelease _ _).bind fun _ => (silent_update v _).bind fun _ => ?_
        split
        · exact hname _
        · exact silent_pure ()
      · refine (silent_update v _).bind fun _ => ?_
        split
        · exact hname _
        · exact silent_pure ()
    · exact silent_pure ()

theorem silent_setBlock (insn : ValueId) (block : Option ValueId) :
    (setBlock insn block).Silent := by
  refine (silent_update insn _).bind fun _ => ?_
  split
  · exact silent_setFunction insn none
  · exact (silent_fetch _).bind fun o => silent_setFunction insn o.function?

theorem silent_indexIn (block : ValueId) (slot : Slot) : (indexIn block slot).Silent := by
  refine (silent_fetch block).bind fun o => ?_
  split
  · exact silent_pure _
  · exact silent_throw rfl

/-- Looking for the place of an instruction faults without an explanation. -/
theorem silent_insertBefore (block insn : ValueId) (before : Slot) :
    (insertBefore block insn before).Silent :=
  (silent_setBlock insn _).bind fun _ => (silent_indexIn block before).bind fun _ =>
    silent_update block _

theorem silent_placeAfter (insn : ValueId) (after : Slot) : (placeAfter insn after).Silent := by
  refine silent_get.bind fun s => (silent_require _).bind fun _ => ?_
  refine (silent_instructionIn after).bind fun target => silent_get.bind fun s => ?_
  split
  · exact silent_throw rfl
  · exact (silent_setBlock insn _).bind fun _ => (silent_indexIn _ after).bind fun _ =>
      silent_update _ _

/-! ## Records -/

theorem silent_contextOfFunction (f : FunctionId) : (contextOfFunction f).Silent := by
  refine (silent_fetch f).bind fun o => ?_
  split
  · exact silent_pure _
  · dsimp only
    split
    · exact (silent_update f _).bind fun _ => silent_pure _
    · exact (silent_fetch _).bind fun _ => (silent_update f _).bind fun _ => silent_pure _

theorem silent_contextOfValue (v : ValueId) : (contextOfValue v).Silent := by
  have hfix : ∀ context : ContextId, (do
      update v fun v => { v with context := some context }
      return context : Act ContextId).Silent := fun context =>
    (silent_update v _).bind fun _ => silent_pure context
  refine (silent_fetch v).bind fun o => ?_
  split
  · exact silent_pure _
  · dsimp only
    split
    · exact (silent_contextOfFunction _).bind hfix
    · exact (silent_fetch _).bind fun _ => hfix _
    · exact hfix _

/-- Contexts are looked up along the function or the block, without an explanation. -/
theorem silent_contextOf (slot : Slot) : (contextOf slot).Silent := by
  unfold contextOf
  split
  · exact silent_contextOfFunction _
  · exact (silent_fetch _).bind fun _ => silent_pure _
  · exact (silent_valueIn _).bind silent_contextOfValue

theorem silent_handleIfExists (slot : Slot) : (handleIfExists slot).Silent :=
  (silent_contextOf slot).bind fun context => (silent_fetch context).bind fun _ => silent_pure _

theorem silent_handleOf (slot : Slot) : (handleOf slot).Silent := by
  refine (silent_handleIfExists slot).bind fun o => ?_
  split
  · exact silent_pure _
  · refine (silent_valueIn slot).bind fun id => (silent_fetch id).bind fun v => ?_
    refine (silent_create _ _).bind fun handle => (silent_contextOf slot).bind fun context => ?_
    exact (silent_update context _).bind fun _ => silent_pure handle

theorem silent_wrapperIfExists (context : ContextId) (node : NodeId) :
    (wrapperIfExists context node).Silent :=
  (silent_fetch context).bind fun _ => silent_pure _

theorem silent_wrapperOf (context : ContextId) (node : NodeId) :
    (wrapperOf context node).Silent := by
  refine (silent_wrapperIfExists context node).bind fun o => ?_
  split
  · exact silent_pure _
  · refine (silent_create _ _).bind fun wrapper => ?_
    exact (silent_update context _).bind fun _ => silent_pure wrapper

/-- The finder faults without an explanation, if at all. -/
theorem silent_findRecord (slot : Slot) : (findRecord slot).Silent := by
  refine (silent_handleIfExists slot).bind fun o => ?_
  split
  · exact silent_pure _
  · refine (silent_contextOf slot).bind fun context => ?_
    refine (silent_wrapperIfExists context _).bind fun o => ?_
    split
    · exact silent_pure _
    · exact silent_get.bind fun s => silent_pure _

theorem silent_makeDebugValue (wrapper : Slot) (binding : Binding) (name : String) :
    (makeDebugValue wrapper binding name).Silent := by
  have hvalue : (requireValue wrapper).Silent := by
    refine silent_get.bind fun s => ?_
    split
    · exact silent_pure _
    · exact silent_throw rfl
  refine hvalue.bind fun v => ?_
  split
  · exact silent_throw rfl
  · refine (silent_fetch _).bind fun n => (silent_require _).bind fun _ => ?_
    refine (silent_create _ _).bind fun id => ?_
    exact (silent_setOperands id _).bind fun _ => silent_pure id

/-- Making a record faults without an explanation. -/
theorem silent_makeRecord (value : Slot) (binding : Binding) (loc : Slot) :
    (makeRecord value binding loc).Silent := by
  refine (silent_handleOf value).bind fun handle => (silent_contextOf value).bind fun context => ?_
  refine (silent_wrapperOf context handle).bind fun wrapper => ?_
  refine (silent_makeDebugValue _ _ _).bind fun id => ?_
  exact (silent_update id _).bind fun _ => silent_pure id

/-- Making a record and placing it faults without an explanation. -/
theorem silent_bindValue (value : Slot) (binding : Binding) (loc before after : Slot) :
    (bindValue value binding loc before after).Silent := by
  refine (silent_require _).bind fun _ => (silent_makeRecord value binding loc).bind fun id => ?_
  dsimp only
  split
  · refine (silent_instructionIn before).bind fun target => silent_get.bind fun s => ?_
    split
    · exact silent_throw rfl
    · exact (silent_insertBefore _ id before).bind fun _ => silent_pure id
  · exact (silent_placeAfter id after).bind fun _ => silent_pure id

/-- So does adding the record of an element. -/
theorem silent_scatterOne (var loc : Slot) (width : Int) (piece : ValueId × Int) :
    (scatterOne var loc width piece).Silent := by
  refine (silent_create _ _).bind fun expression => (silent_operandAt _ 1).bind fun element => ?_
  exact (silent_bindValue _ _ _ _ _).bind fun _ => silent_pure ()

end Act

end SsaDebugInfo
