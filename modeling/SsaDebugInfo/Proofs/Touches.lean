import SsaDebugInfo.Proofs.Ir.Touches
import SsaDebugInfo.Proofs.Reporting
import SsaDebugInfo.Records.Scatter

/-!
# What the actions on metadata touch

Handles and wrappers, records, modules, layouts and diagnostics, action by action. Only records get
placed; the nodes that come are handles, expressions and locations.
-/

namespace SsaDebugInfo

open Act Store

variable {c : Scope}

/-! ## Handles and wrappers -/

/-- The changes by which contexts get fixed are such as a relation says. -/
structure Act.Fixes (R : Store → Store → Prop) : Prop where
  value : ∀ (v : ValueId) (c : ContextId) s, R s (s.modify v fun o => { o with context := some c })
  function : ∀ (f : FunctionId) (c : ContextId) s,
    R s (s.modify f fun o => { o with context := some c })

/-- The changes by which wrappers and entries come are such as a relation says. -/
structure Act.Furnishes (R : Store → Store → Prop) : Prop extends Fixes R where
  wrapper : ∀ (n : NodeId) (c : ContextId) s,
    R s (s.push .value { type := .metadata, shape := .wrapper n, context := some c })
  entry : ∀ (c : ContextId) (f : Context → Context) s, R s (s.modify c f)

section Contexts

variable {R : Store → Store → Prop} [IsPreorder Store R]

namespace Act.Fixes

variable (h : Fixes R)

include h

theorem contextOfFunction (id : FunctionId) : (contextOfFunction id).Only R := by
  have hfix : ∀ context : ContextId, (do
      update id fun f => { f with context := some context }
      return context : Act ContextId).Only R := fun context =>
    (only_update (h.function id context)).bind fun _ => only_pure context
  refine (only_fetch id).bind fun f => ?_
  split
  · exact only_pure _
  · dsimp only
    split
    · exact hfix _
    · exact (only_fetch _).bind fun _ => hfix _

theorem contextOfValue (id : ValueId) : (contextOfValue id).Only R := by
  have hfix : ∀ context : ContextId, (do
      update id fun v => { v with context := some context }
      return context : Act ContextId).Only R := fun context =>
    (only_update (h.value id context)).bind fun _ => only_pure context
  refine (only_fetch id).bind fun v => ?_
  split
  · exact only_pure _
  · dsimp only
    split
    · exact (h.contextOfFunction _).bind hfix
    · exact (only_fetch _).bind fun _ => hfix _
    · exact hfix _

theorem contextOf (slot : Slot) : (contextOf slot).Only R := by
  unfold SsaDebugInfo.contextOf
  split
  · exact h.contextOfFunction _
  · exact (only_fetch _).bind fun _ => only_pure _
  · exact (only_valueIn _).bind h.contextOfValue

theorem handleIfExists (slot : Slot) : (handleIfExists slot).Only R :=
  (h.contextOf slot).bind fun context => (only_fetch context).bind fun _ => only_pure _

end Act.Fixes

theorem only_wrapperIfExists (context : ContextId) (node : NodeId) :
    (wrapperIfExists context node).Only R :=
  (only_fetch context).bind fun _ => only_pure _

theorem Act.Fixes.findRecord (h : Fixes R) (slot : Slot) : (findRecord slot).Only R := by
  refine (h.handleIfExists slot).bind fun o => ?_
  split
  · exact only_pure _
  · refine (h.contextOf slot).bind fun context => ?_
    refine (only_wrapperIfExists context _).bind fun o => ?_
    split
    · exact only_pure _
    · exact only_get.bind fun _ => only_pure _

namespace Act.Furnishes

variable (h : Furnishes R)

include h

theorem wrapperOf (context : ContextId) (node : NodeId) : (wrapperOf context node).Only R := by
  refine (only_wrapperIfExists context node).bind fun o => ?_
  split
  · exact only_pure _
  · refine (only_create (h.wrapper node context)).bind fun wrapper => ?_
    exact (only_update (h.entry context _)).bind fun _ => only_pure wrapper

theorem handleOf (hhandle : ∀ {s : Store} {id : ValueId} {v : Value}, s.get? id = some v →
    R s (s.push .node (v.handle id))) (slot : Slot) : (handleOf slot).Only R := by
  refine (h.handleIfExists slot).bind fun o => ?_
  split
  · exact only_pure _
  · refine (only_valueIn slot).bind fun id s => ?_
    cases hv : s.get? id with
    | none =>
      rw [run_bind, run_fetch, hv]
      exact refl_of R s
    | some v =>
      rw [run_fetch_bind hv]
      -- the handle comes first, then its entry
      have hentry : (do
          update (← SsaDebugInfo.contextOf slot) fun c =>
            { c with handles := c.handles ++ [(id, s.nextId .node)] }
          return s.nextId .node : Act NodeId).Only R :=
        (h.contextOf slot).bind fun context => (only_update (h.entry context _)).bind fun _ =>
          only_pure _
      exact trans_of R (hhandle hv) (hentry _)

end Act.Furnishes

end Contexts

theorem Value.isInsertElement_of_isDebugValue {v : Value} (h : v.isDebugValue = true) :
    v.isInsertElement = false := by
  unfold isDebugValue binding? at h
  unfold isInsertElement
  cases hopcode : v.opcode? with
  | none => rfl
  | some opcode =>
    rw [hopcode] at h
    cases opcode with
    | debugValue => rfl
    | _ => cases h

theorem fixes_touches : Fixes (Touches c) where
  value _ _ _ := .single (.change _ fun _ => ⟨rfl, fun _ => ⟨rfl, rfl⟩, fun _ _ => rfl⟩)
  function _ _ _ := .single (.change _ fun _ => ⟨rfl, rfl, rfl, fun _ => ⟨rfl, rfl⟩⟩)

theorem furnishes_touches : Furnishes (Touches c) where
  toFixes := fixes_touches
  wrapper _ _ _ := .single (.create ⟨rfl, rfl, rfl⟩)
  entry _ _ _ := .single (.change _ fun _ => trivial)

theorem touches_findRecord (slot : Slot) : (findRecord slot).Only (Touches c) :=
  fixes_touches.findRecord slot

/-- A record that is found is there, and may get other operands, since it is no insertion. -/
theorem findRecord_exchanges (slot : Slot) (s : Store) :
    (findRecord slot).Ends s (fun o t => Touches c s t ∧
      ∀ r, o = some r → t.Has (.value r) ∧ c.Exchanges t r) fun _ t => Touches c s t := by
  refine ((fixes_touches.handleIfExists slot).ends s).bind fun o t ht => ?_
  split
  · exact ends_pure ⟨ht, nofun⟩
  · refine ((fixes_touches.contextOf slot).after ht).bind fun context u hu => ?_
    refine ((only_wrapperIfExists context _).after hu).bind fun o q hq => ?_
    split
    · exact ends_pure ⟨hq, nofun⟩
    · refine ends_get_bind (ends_pure ⟨hq, fun r hr => ?_⟩)
      have hfound := List.find?_some hr
      cases hv : q.get? r with
      | none =>
        rw [hv] at hfound
        cases hfound
      | some v =>
        rw [hv] at hfound
        exact ⟨has_value_iff.mpr ⟨v, hv⟩,
          .of_get? hv (Value.isInsertElement_of_isDebugValue hfound)⟩

section Handles

variable (hnodes : ∀ n : Node, n.handleOf?.isSome = true → c.nodes n)

include hnodes

theorem touches_handleOf (slot : Slot) : (handleOf slot).Only (Touches c) :=
  furnishes_touches.handleOf (fun hv => .single (.addHandle hv (hnodes _ (by simp)))) slot

theorem touches_makeRecord (value : Slot) (binding : Binding) (loc : Slot) :
    (makeRecord value binding loc).Only (Touches c) := by
  refine (touches_handleOf hnodes value).bind fun handle => ?_
  refine (fixes_touches.contextOf value).bind fun context => ?_
  refine (furnishes_touches.wrapperOf context handle).bind fun wrapper => ?_
  refine (touches_makeDebugValue _ _ _).bind fun id => ?_
  have hloc : (update id (·.mapInstruction fun i => { i with loc })).Only (Touches c) :=
    touches_updateInstruction (fun _ => rfl) fun _ => rfl
  exact hloc.bind fun _ => only_pure id

end Handles

/-! ## Modules and layouts -/

theorem touches_createLayout (text : String) : (create .layout { text }).Only (Touches c) :=
  touches_create rfl

section Sizes

variable {R : Store → Store → Prop} [IsPreorder Store R]

/-- Measuring changes nothing but a layout, which remembers the size. -/
theorem only_sizeUnder
    (hlayout : ∀ (id : LayoutId) type s, R s (s.modify id fun l => (l.sizeInBits type).2))
    (id : LayoutId) (type : Ty) : (sizeUnder id type).Only R := by
  intro s
  cases hl : s.get? id with
  | none =>
    rw [sizeUnder, run_bind, run_fetch, hl]
    exact refl_of R s
  | some l =>
    rw [sizeUnder, run_fetch_bind hl, run_bind, run_update]
    have hremembers : s.modify id (fun _ => (l.sizeInBits type).2) =
        s.modify id fun l => (l.sizeInBits type).2 := by
      refine modify_congr fun o ho => ?_
      obtain rfl := Option.some_inj.mp (hl.symm.trans ho)
      rfl
    have hmeasured := only_ofExcept (R := R) (l.sizeInBits type).1
      (s.modify id fun l => (l.sizeInBits type).2)
    exact hremembers ▸ trans_of R (hlayout id type s) hmeasured

theorem only_sizeForRecord
    (hlayout : ∀ (id : LayoutId) type s, R s (s.modify id fun l => (l.sizeInBits type).2))
    (r : ValueId) (type : Ty) : (sizeForRecord r type).Only R := by
  refine only_get.bind fun s => ?_
  split
  · exact only_ofExcept _
  · refine (only_fetch _).bind fun f => ?_
    split
    · exact only_ofExcept _
    · exact (only_fetch _).bind fun m => only_sizeUnder hlayout _ _

end Sizes

theorem touches_layout (id : LayoutId) (type : Ty) (s : Store) :
    Touches c s (s.modify id fun l => (l.sizeInBits type).2) :=
  .single (.change id fun _ => ⟨type, rfl⟩)

theorem touches_sizeUnder (id : LayoutId) (type : Ty) : (sizeUnder id type).Only (Touches c) :=
  only_sizeUnder touches_layout id type

theorem touches_sizeForRecord (r : ValueId) (type : Ty) :
    (sizeForRecord r type).Only (Touches c) :=
  only_sizeForRecord touches_layout r type

theorem touches_describe (d : Description) (h : c.describes d) (hnodes : ∀ n, c.nodes n)
    (s : Store) : Touches c s (d.apply s) :=
  .single (.describe d h hnodes)

theorem touches_addUnit {module : ModuleId} {unit : Slot} (h : c.describes (.addUnit module unit))
    (hnodes : ∀ n, c.nodes n) : (addUnit module unit).Only (Touches c) :=
  only_update (touches_describe (.addUnit module unit) h hnodes)

theorem touches_addFunction {module : ModuleId} {function : FunctionId}
    (h : c.describes (.addFunction module function)) (hnodes : ∀ n, c.nodes n) :
    (addFunction module function).Only (Touches c) := by
  refine (only_fetch function).bind fun f => (only_require _).bind fun _ => ?_
  refine Only.bind (touches_update fun _ => ⟨rfl, rfl, rfl, fun _ => ⟨rfl, rfl⟩⟩) fun _ => ?_
  exact only_update (touches_describe (.addFunction module function) h hnodes)

theorem touches_addGlobal (module : ModuleId) (slot : Slot) :
    (addGlobal module slot).Only (Touches c) := by
  refine (only_globalIn slot).bind fun found => (only_require _).bind fun _ => ?_
  refine Only.bind (touches_updateValue (fun o => o.core_mapGlobal fun _ => rfl)
    (fun o => o.standing_mapGlobal _) (fun o => o.site?_mapGlobal _)
    fun o => o.operands_mapGlobal _) fun _ => ?_
  exact touches_update fun _ => ⟨rfl, rfl, rfl, rfl, .inl rfl⟩

theorem touches_ensureState (module : ModuleId) : (ensureState module).Only (Touches c) := by
  refine (only_fetch module).bind fun m => ?_
  split
  · exact (touches_record _).bind fun _ => touches_update fun _ => ⟨rfl, rfl, rfl, rfl, .inr rfl⟩
  · exact only_pure ()

theorem only_requireState (module : ModuleId) : (requireState module).Only (Touches c) := by
  refine (only_fetch module).bind fun m => ?_
  split
  · exact only_pure _
  · exact only_throw _

theorem touches_resetIndex (module : ModuleId) : (resetIndex module).Only (Touches c) :=
  (only_requireState module).bind fun _ =>
    touches_update fun _ => ⟨rfl, rfl, rfl, rfl, .inr rfl⟩

theorem touches_loadState (module : ModuleId) : (loadState module).Only (Touches c) := by
  refine (only_fetch module).bind fun m => ?_
  split
  · exact only_pure _
  · exact (touches_ensureState module).bind fun _ => (touches_record _).bind fun _ => only_pure _

/-! ## Records -/

section Records

variable (hplaces : c.places = true) (hnodes : ∀ n : Node, n.handleOf?.isSome = true → c.nodes n)

include hplaces hnodes

theorem touches_bindValue (value : Slot) (binding : Binding) (loc before after : Slot) :
    (bindValue value binding loc before after).Only (Touches c) := by
  refine (only_require _).bind fun _ => ?_
  refine (touches_makeRecord hnodes value binding loc).bind fun id => ?_
  dsimp only
  split
  · refine (only_instructionIn before).bind fun target => only_get.bind fun s => ?_
    split
    · exact only_throw _
    · exact ((places_touches hplaces).insertBefore _ id before).bind fun _ => only_pure id
  · exact ((places_touches hplaces).placeAfter id after).bind fun _ => only_pure id

theorem touches_migrate (old new : Slot) : (migrate old new).Only (Touches c) := by
  intro s
  have hrelocate : ∀ r : ValueId, (relocate r new).Only (Touches c) := by
    intro r
    refine only_get.bind fun s => ?_
    split
    · exact only_pure ()
    · split
      · refine (only_nextInstruction _).bind fun next => ?_
        split
        · exact ((places_touches hplaces).removeFromParent r).bind fun _ =>
            (places_touches hplaces).placeAfter r new
        · exact only_pure ()
      · exact only_pure ()
  refine Ends.left (P := Touches c s) ((findRecord_exchanges old s).bind fun o t ⟨ht, hr⟩ => ?_)
  cases o with
  | none => exact ends_pure ht
  | some r =>
    obtain ⟨hthere, hexchanges⟩ := hr r rfl
    refine Ends.onwards ht ?_
    refine ((only_ask _).ends t).bind fun _ u hu => ?_
    refine ((touches_record _).after hu).bind fun _ u hu => ?_
    refine ((touches_handleOf hnodes new).after hu).bind fun handle u hu => ?_
    refine ((fixes_touches.contextOf new).after hu).bind fun context u hu => ?_
    refine ((furnishes_touches.wrapperOf context handle).after hu).bind fun wrapper u hu => ?_
    have hset := touches_setOperand_of (hexchanges.touches hu hthere) 0 (.ofValue wrapper)
    exact (Ends.of_left (hu.trans hset)).bind fun _ _ hq => (hrelocate r).after hq

theorem touches_scatterOne {var loc : Slot} {width : Int} {piece : ValueId × Int}
    (hpiece : c.nodes (.expression (Expression.ofBitPiece piece.2 width))) :
    (scatterOne var loc width piece).Only (Touches c) := by
  refine Only.bind (touches_create ⟨rfl, hpiece⟩) fun expression => ?_
  refine (only_operandAt _ 1).bind fun element => ?_
  exact (touches_bindValue hplaces hnodes _ _ _ _ _).bind fun _ => only_pure ()

theorem touches_scatter (hexpressions : ∀ elements, c.nodes (.expression elements)) (slot : Slot) :
    (scatter slot).Only (Touches c) := by
  refine only_get.bind fun s => ?_
  split
  · exact only_pure ()
  · split
    · refine (touches_findRecord slot).bind fun found => ?_
      split
      · exact only_pure ()
      · refine (touches_sizeForRecord _ _).bind fun width => (only_ask _).bind fun binding => ?_
        refine (only_ask _).bind fun loc => (only_ask _).bind fun parent => ?_
        refine (only_ask _).bind fun inserts => (only_ask _).bind fun offsets => ?_
        refine (only_forM fun piece _ => ?_).bind fun _ => ?_
        · exact touches_scatterOne hplaces hnodes (hexpressions _)
        exact (only_ask _).bind fun text => touches_record _
    · exact only_pure ()

end Records

/-! ## Diagnostics -/

/-- What reporting changes are no placements, and no descriptions. -/
theorem Act.Only.touches {α : Type} {act : Act α} (h : act.Only Reports)
    (hnodes : ∀ line subprogram, c.nodes (.location line 0 subprogram none))
    (hdescribes : ∀ d, ¬ c.describes d) : act.Only (Touches c) := by
  refine h.relate fun {s t} hreport => ?_
  cases hreport with
  | record entry => exact .single (.annotate s.labelTypes _)
  | engine id f => exact .single (.change id fun _ => trivial)
  | diagnostic d => exact .single (.create trivial)
  | notes id notes => exact .single (.change id fun _ => trivial)
  | locate line subprogram => exact .single (.create ⟨rfl, hnodes line subprogram⟩)
  | fill hfills =>
    cases hfills with
    | same => exact .refl
    | index module => exact .single (.index module hdescribes)

theorem touches_pushNotes (engine : EngineId) (notes : List Slot) :
    (pushNotes engine notes).Only (Touches c) := by
  refine (only_fetch engine).bind fun e => ?_
  split
  · exact only_throw _
  · exact touches_update fun _ => trivial

theorem touches_popNotes (engine : EngineId) (count : Nat) :
    (popNotes engine count).Only (Touches c) :=
  touches_update fun _ => trivial

theorem only_receivedLines (engine : EngineId) : (receivedLines engine).Only (Touches c) := by
  refine (only_fetch engine).bind fun e => ?_
  split
  · exact only_throw _
  · refine only_mapM fun slot => (only_idIn _ slot).bind fun id => ?_
    exact (only_fetch id).bind fun d => only_ask _

theorem touches_makeEmitter (engine : Option EngineId) (depth : Int) :
    (makeEmitter engine depth).Only (Touches c) := by
  refine (only_require _).bind fun _ => ?_
  dsimp only
  split
  · exact touches_create trivial
  · exact Only.bind (touches_create trivial) fun _ => touches_create trivial

end SsaDebugInfo
