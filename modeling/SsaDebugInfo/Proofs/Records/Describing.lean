import SsaDebugInfo.Proofs.Records.Intact
import SsaDebugInfo.Proofs.Records.Rules

/-!
# The record of one element

Describing an inserted element makes an expression for its piece, a handle and a wrapper unless the
element has them, and a record, which is put right behind the insertion. What was there does, holds
and is called what it was, and stands where it stood (`Store.Retains`).

- `Describes`, `Describes.tracks`: what a record says, and that it tracks the element.
- `makeRecord_describes`: a new record describes the value that it is made for.
- `scatterOne_inserts`: describing one element does not fault, and puts one record into one list.
-/

namespace SsaDebugInfo

/-- A record wraps nothing. -/
theorem Value.wrapped?_of_isDebugValue {v : Value} (h : v.isDebugValue = true) :
    v.wrapped? = none := by
  obtain ⟨_, shape, _, _⟩ := v
  cases shape with
  | instruction => rfl
  | _ => cases h

namespace Store

variable {s t u : Store} {v w r element : ValueId} {binding : Binding} {loc : Slot}

/-! ## What is retained -/

/-- Values keep what they do, what they hold, their names and where they stand, and nodes stay what
they are. -/
structure Retains (s t : Store) : Prop extends s.MoreTables t where
  stays : ∀ {v : ValueId} {a : Value}, s.get? v = some a →
    ∃ b : Value, t.get? v = some b ∧ a.Stays b ∧ b.operands = a.operands
  node : ∀ {n : NodeId} {o : Node}, s.get? n = some o → t.get? n = some o

namespace Retains

theorem refl (s : Store) : s.Retains s where
  toMoreTables := .refl s
  stays ha := ⟨_, ha, .refl _, rfl⟩
  node hn := hn

theorem trans (hst : s.Retains t) (htu : t.Retains u) : s.Retains u where
  toMoreTables := hst.toMoreTables.trans htu.toMoreTables
  stays ha := by
    obtain ⟨b, hb, hab, hoperands⟩ := hst.stays ha
    obtain ⟨c, hc, hbc, hoperands'⟩ := htu.stays hb
    exact ⟨c, hc, hab.trans hbc, hoperands'.trans hoperands⟩
  node hn := htu.node (hst.node hn)

variable (h : s.Retains t)

include h

theorem operandsOf (hv : s.Has (.value v)) : t.operandsOf v = s.operandsOf v := by
  obtain ⟨a, ha⟩ := has_value_iff.mp hv
  obtain ⟨b, hb, _, hoperands⟩ := h.stays ha
  rw [operandsOf_eq hb, operandsOf_eq ha, hoperands]

theorem blockOf? (hv : s.Has (.value v)) : t.blockOf? v = s.blockOf? v := by
  obtain ⟨a, ha⟩ := has_value_iff.mp hv
  obtain ⟨b, hb, hstays, _⟩ := h.stays ha
  rw [Store.blockOf?, hb, Store.blockOf?, ha]
  exact hstays.block

/-- What is retained is a record, or not, as before. -/
theorem isRecord (hv : s.Has (.value v)) : t.isRecord v = s.isRecord v := by
  obtain ⟨a, ha⟩ := has_value_iff.mp hv
  obtain ⟨b, hb, hstays, _⟩ := h.stays ha
  rw [isRecord_eq hb, isRecord_eq ha, Value.isDebugValue, Value.binding?, hstays.opcode,
    Value.isDebugValue, Value.binding?]

/-- What is retained tracks what it tracked. -/
theorem tracks (hs : s.Sound) (hr : s.Has (.value r)) (v : ValueId) :
    t.tracks r v = s.tracks r v :=
  h.toMoreTables.tracks hs h.isRecord (h.operandsOf hr) v

end Retains

/-- Contexts and what comes with them do not matter. -/
theorem Intact.retains (h : s.Intact t) (hmore : s.MoreTables t) : s.Retains t where
  toMoreTables := hmore
  stays ha := by
    obtain ⟨c, ht⟩ := h.value ha
    exact ⟨_, ht, ⟨⟨rfl, rfl, rfl⟩, rfl, rfl, rfl⟩, rfl⟩
  node := h.node

/-! ## Records that describe -/

/-- The record says by a binding where a value is to be found, and for which place in the source. -/
structure Describes (s : Store) (r element : ValueId) (binding : Binding) (loc : Slot) : Prop where
  tells : ∃ o : Value, s.get? r = some o ∧ o.opcode? = some (.debugValue binding) ∧
    o.instruction?.map (·.loc) = some loc
  holds : ∃ w n, s.operandsOf r = [.ofValue w] ∧ s.wrappedAt w = some n ∧
    s.handleAt n = some element
  given : s.Has (.value element)

namespace Describes

/-- What describes an element is a record. -/
theorem isRecord (h : s.Describes r element binding loc) : s.isRecord r = true := by
  obtain ⟨o, ho, hopcode, _⟩ := h.tells
  refine isRecord_iff.mpr ⟨o, ho, ?_⟩
  rw [Value.isDebugValue, Value.binding?, hopcode]
  rfl

/-- A record that does and holds what it did describes what it did. -/
theorem carry (h : s.Describes r element binding loc) (hmore : s.MoreTables t)
    (hcarries : ∀ {a : Value}, s.get? r = some a → ∃ b, t.get? r = some b ∧ a.Carries b)
    (hoperands : t.operandsOf r = s.operandsOf r) : t.Describes r element binding loc where
  tells := by
    obtain ⟨o, ho, hopcode, hloc⟩ := h.tells
    obtain ⟨p, hp, hcarried⟩ := hcarries ho
    exact ⟨p, hp, hcarried.opcode.trans hopcode, hcarried.loc.trans hloc⟩
  holds := by
    obtain ⟨w, n, hheld, hwrapped, hhandle⟩ := h.holds
    exact ⟨w, n, hoperands.trans hheld, hmore.wrappedAt hwrapped, hmore.handleAt hhandle⟩
  given := hmore.has h.given

/-- A record goes on describing its element while nothing changes that there is. -/
theorem of_retains (h : s.Describes r element binding loc) (hst : s.Retains t) :
    t.Describes r element binding loc := by
  refine h.carry hst.toMoreTables (fun ha => ?_) (hst.operandsOf (has_of_isRecord h.isRecord))
  obtain ⟨b, hb, hstays, _⟩ := hst.stays ha
  exact ⟨b, hb, hstays.toCarries⟩

/-- A record that describes a value tracks it, and no other. -/
theorem tracks (h : s.Describes r element binding loc) :
    s.tracks r v = true ↔ v = element := by
  obtain ⟨w, n, hoperands, hwrapped, hhandle⟩ := h.holds
  have hhas : s.Has (.value element) := h.given
  have htracks : s.tracks r element = true :=
    tracks_iff.mpr ⟨h.isRecord, w, [], n, hoperands, hwrapped, hhandle, hhas⟩
  constructor
  · exact fun hv => tracks_unique hv htracks
  · rintro rfl
    exact htracks

end Describes

/-- A record has come, and besides it only wrappers. -/
structure AddsRecord (r : ValueId) (s t : Store) : Prop extends s.Retains t where
  new : ¬ s.Has (.value r)
  values : ∀ v, t.Has (.value v) → s.Has (.value v) ∨ v = r ∨ ∃ n, t.wrappedAt v = some n

/-! ## Making a record -/

/-- The record that is made with a wrapper: it is in no block and has no name. -/
def newRecord (w : ValueId) (binding : Binding) (loc : Slot) : Value where
  type := .void
  shape := .instruction { name := "" } [.ofValue w] { opcode := .debugValue binding, loc }

/-- A record with a wrapper has come; it is among the uses of the wrapper, and nothing else has
changed. -/
structure Records (s : Store) (r w : ValueId) (binding : Binding) (loc : Slot) (t : Store) :
    Prop where
  new : ¬ s.Has (.value r)
  record : t.get? r = some (newRecord w binding loc)
  value : ∀ {v : ValueId} {o : Value}, s.get? v = some o →
    ∃ uses, t.get? v = some { o with uses }
  has : ∀ {v}, t.Has (.value v) → v = r ∨ s.Has (.value v)
  node : ∀ n : NodeId, t.get? n = s.get? n

theorem Records.wrappedAt (h : s.Records r w binding loc t) {n : NodeId}
    (hn : s.wrappedAt v = some n) : t.wrappedAt v = some n := by
  obtain ⟨o, ho, hwrapped⟩ := Option.bind_eq_some_iff.mp hn
  obtain ⟨uses, ht⟩ := h.value ho
  rw [Store.wrappedAt, ht]
  exact hwrapped

/-- Besides the record only what leaves the program intact has come. -/
theorem Records.addsRecord (h : t.Records r w binding loc u) (hst : s.Intact t)
    (hmore : s.MoreTables u) : s.AddsRecord r u := by
  constructor
  · constructor
    · exact hmore
    · intro v a ha
      obtain ⟨c, ht⟩ := hst.value ha
      obtain ⟨uses, hu⟩ := h.value ht
      exact ⟨_, hu, ⟨⟨rfl, rfl, rfl⟩, rfl, rfl, rfl⟩, rfl⟩
    · exact fun hn => (h.node _).trans (hst.node hn)
  · exact fun hr => h.new (hst.has hr)
  · intro v hv
    by_cases hold : s.Has (.value v)
    · exact .inl hold
    · rcases h.has hv with hr | ht
      · exact .inr (.inl hr)
      · obtain ⟨n, hn⟩ := hst.wrapper_of_new ht hold
        exact .inr (.inr ⟨n, h.wrappedAt hn⟩)

/-- A record with the wrapper of a value describes the value. -/
theorem Records.describes (h : s.Records r w binding loc t) (hs : s.Interned)
    (hw : s.wrapperFor? element = some w) (helement : t.Has (.value element)) :
    t.Describes r element binding loc := by
  obtain ⟨n, hwrapped, hhandle⟩ := hs.of_wrapperFor? hw
  constructor
  · exact ⟨_, h.record, rfl, rfl⟩
  · refine ⟨w, n, operandsOf_eq h.record, h.wrappedAt hwrapped, ?_⟩
    rw [handleAt, h.node]
    exact hhandle
  · exact helement

/-- The record that is made without a wrapper. -/
def blankRecord (binding : Binding) : Value where
  type := .void
  shape := .instruction { name := "" } [] { opcode := .debugValue binding }

/-- The store where a record has got a wrapper. -/
def addRecord (s : Store) (w : ValueId) (binding : Binding) : Store :=
  ((s.push .value (blankRecord binding)).putOperands (s.nextId .value) [.ofValue w]).mapUses w
    (enterUses (s.nextId .value))

/-- A record comes as a new value and enters the uses of its wrapper. -/
theorem get?_addRecord (hw : s.Has (.value w)) (v : ValueId) :
    (s.addRecord w binding).get? v =
      if v = s.nextId .value then some (newRecord w binding none)
      else if v = w then
        (s.get? v).map fun o => { o with uses := enterUses (s.nextId .value) o.uses }
      else s.get? v := by
  have hne : s.nextId .value ≠ w := (@ne_nextId .value s w hw).symm
  rw [addRecord, get?_mapUses, get?_putOperands, get?_push]
  by_cases hv : v = s.nextId .value
  · subst hv
    rw [if_neg hne, if_pos rfl, if_pos rfl, if_pos rfl]
    rfl
  · rw [if_neg hv, if_neg hv, if_neg hv]

/-- Nothing else comes with it. -/
theorem has_of_addRecord (hv : (s.addRecord w binding).Has (.value v)) :
    v = s.nextId .value ∨ s.Has (.value v) := by
  unfold addRecord putOperands mapUses at hv
  rcases has_push.mp (has_modify.mp (has_modify.mp hv)) with heq | hold
  · exact .inl (Ref.value.inj heq)
  · exact .inr hold

theorem node_addRecord (n : NodeId) : (s.addRecord w binding).get? n = s.get? n := by
  let made := s.push .value (blankRecord binding)
  let held := made.putOperands (s.nextId .value) [.ofValue w]
  calc (s.addRecord w binding).get? n = held.get? n := get?_modify_kind _ _ _ _ (by decide)
    _ = made.get? n := get?_modify_kind _ _ _ _ (by decide)
    _ = s.get? n := @get?_push_kind .value s .node (blankRecord binding) n (by decide)

/-- The place in the source comes last. -/
theorem records_addRecord (hw : s.Has (.value w)) (binding : Binding) (loc : Slot) :
    s.Records (s.nextId .value) w binding loc ((s.addRecord w binding).modify (s.nextId .value)
      (·.mapInstruction fun i => { i with loc })) := by
  constructor
  · exact fun h => @ne_nextId .value s _ h rfl
  · rw [get?_modify_self, get?_addRecord hw, if_pos rfl]
    rfl
  · intro v o ho
    have hne : v ≠ s.nextId .value := @ne_nextId .value s v (has_value_iff.mpr ⟨o, ho⟩)
    rw [get?_modify_other _ _ hne, get?_addRecord hw, if_neg hne]
    split
    · exact ⟨_, congrArg _ ho⟩
    · exact ⟨o.uses, ho⟩
  · exact fun hv => has_of_addRecord (has_modify.mp hv)
  · intro n
    rw [get?_modify_kind _ _ _ _ (by decide), node_addRecord]

end Store

open Act Store

variable {s t : Store} {element w : ValueId} {binding : Binding} {loc : Slot}

/-- Makes the record of what a wrapper stands for. -/
def recordFor (w : ValueId) (binding : Binding) (loc : Slot) : Act ValueId := do
  let id ← makeDebugValue (.ofValue w) binding ""
  update id (·.mapInstruction fun i => { i with loc })
  return id

/-- Making a record is looking for the wrapper of the value, and then making one that holds it. -/
theorem makeRecord_eq (value : Slot) : makeRecord value binding loc = (do
    let w ← (do
      let handle ← handleOf value
      wrapperOf (← contextOf value) handle : Act ValueId)
    recordFor w binding loc) := by
  unfold makeRecord recordFor
  simp only [bind_assoc]

/-- A record can be made with a wrapper of a handle. -/
theorem run_makeDebugValue (hs : s.Interned) (hw : s.wrapperFor? element = some w) :
    (makeDebugValue (.ofValue w) binding "").run s =
      (.ok (s.nextId .value), s.addRecord w binding) := by
  obtain ⟨n, hwrapped, hhandle⟩ := hs.of_wrapperFor? hw
  obtain ⟨o, ho, hwrapped⟩ := Option.bind_eq_some_iff.mp hwrapped
  obtain ⟨node, hnode, hhandle⟩ := Option.bind_eq_some_iff.mp hhandle
  let id : ValueId := s.nextId .value
  let made := s.push .value (blankRecord binding)
  have hrequire : (requireValue (.ofValue w)).run s = (.ok o, s) := by
    rw [requireValue, run_get_bind, valueIn?_eq_some.mpr ⟨rfl, ho⟩]
    rfl
  have hblank : made.get? id = some (blankRecord binding) := @get?_push_self .value s _
  have hhas : (made.putOperands id [.ofValue w]).Has (.value w) :=
    has_modify.mpr (has_push.mpr (.inr (has_value_iff.mpr ⟨o, ho⟩)))
  have hset : (setOperands id [.ofValue w]).run made = (.ok (), s.addRecord w binding) := by
    rw [setOperands, run_fetch_bind hblank]
    show (addUse id (.ofValue w) >>= fun _ => pure ()).run (made.putOperands id [.ofValue w]) = _
    rw [run_bind, run_addUse hhas]
    rfl
  rw [makeDebugValue, run_bind, hrequire]
  dsimp only
  rw [hwrapped]
  dsimp only
  rw [run_fetch_bind hnode, hhandle]
  show (do setOperands id [.ofValue w]; return id : Act ValueId).run made = _
  rw [run_bind, hset]
  rfl

/-- Where the wrapper is there, a record of it always comes. -/
theorem recordFor_records (hs : s.Interned) (hw : s.wrapperFor? element = some w) :
    (recordFor w binding loc).Ends s (fun r t => s.Records r w binding loc t)
      fun _ _ => False := by
  obtain ⟨n, hwrapped, _⟩ := hs.of_wrapperFor? hw
  have hrecords := records_addRecord (has_of_wrappedAt hwrapped) binding loc
  exact ends_run_bind (run_makeDebugValue hs hw) (ends_update_bind (ends_pure hrecords))

/-- A new record describes the value that it is made for; it stands nowhere, and nothing else has
changed. -/
theorem makeRecord_describes (hs : s.Sound) (hv : s.Has (.value element))
    (hvar : s.HasIn binding.var) (hexpression : s.HasIn binding.expression) (hloc : s.HasIn loc) :
    (makeRecord (.ofValue element) binding loc).Ends s (fun r t => t.Sound ∧ s.Unmoved t ∧
      s.AddsRecord r t ∧ t.Describes r element binding loc) fun _ _ => False := by
  have hsound := (keeps_makeRecord (d := {}) hs (fun _ h => h.elim) (.ofValue element) binding hvar
    hexpression hloc).edits.ends
  have hunmoved := (touches_makeRecord (c := { nodes := fun _ => True }) (fun _ _ => trivial)
    (.ofValue element) binding loc).still.ends s
  have hmade : (makeRecord (.ofValue element) binding loc).Ends s (fun r t => ∃ u w, s.Intact u ∧
      u.Interned ∧ u.wrapperFor? element = some w ∧ u.Records r w binding loc t)
      fun _ _ => False := by
    rw [makeRecord_eq]
    refine (((answers_wrapperOfValue hs hv).ends.also (keeps_wrapperOfValue hs _).ends).also
      ((Intact.wrapperOfValue _).ends s)).bind fun w u ⟨⟨_, hinterns, v, hv', hw⟩, hintact⟩ => ?_
    obtain rfl : element = v := by simpa using hv'
    have hu := (hinterns.sound hs).interned
    exact (recordFor_records hu hw).mono (fun r t ht => ⟨u, w, hintact, hu, hw, ht⟩)
      fun _ _ hf => hf
  refine ((hmade.also hsound).also hunmoved).mono ?_ fun _ _ hf => hf
  rintro r t ⟨⟨⟨u, w, hintact, hu, hw, ht⟩, hedited, _⟩, hst⟩
  have hmore : s.MoreTables t := hedited.edits.moreTables hs
  exact ⟨hedited.sound hs, hst, ht.addsRecord hintact hmore, ht.describes hu hw (hmore.has hv)⟩

/-! ## Placing a record -/

/-- No value has come, and nodes are what they were. -/
structure Store.NothingMade (s t : Store) : Prop where
  has : ∀ v, t.Has (.value v) → s.Has (.value v)
  node : ∀ n : NodeId, t.get? n = s.get? n

instance : IsPreorder Store NothingMade where
  refl _ := ⟨fun _ h => h, fun _ => rfl⟩
  trans _ _ _ hst htu :=
    ⟨fun v h => hst.has v (htu.has v h), fun n => (htu.node n).trans (hst.node n)⟩

theorem places_nothingMade : Act.Places NothingMade where
  value _ _ _ := ⟨fun _ => has_modify.mp, fun _ => get?_modify_kind _ _ _ _ (by decide)⟩
  register _ _ _ := ⟨fun _ => has_modify.mp, fun _ => get?_modify_kind _ _ _ _ (by decide)⟩
  unregister _ _ _ := ⟨fun _ => has_modify.mp, fun _ => get?_modify_kind _ _ _ _ (by decide)⟩
  roster _ _ _ := ⟨fun _ => has_modify.mp, fun _ => get?_modify_kind _ _ _ _ (by decide)⟩

variable {link r b : ValueId}

/-- A record has come right behind an instruction, and it describes a value. -/
structure Store.Inserts (s : Store) (link r : ValueId) (element : ValueId) (binding : Binding)
    (loc : Slot) (t : Store) : Prop extends s.AddsRecord r t where
  describes : t.Describes r element binding loc
  instructionsOf : ∀ c, t.instructionsOf c =
    if s.blockOf? link = some c then putAfter (.ofValue link) (.ofValue r) (s.instructionsOf c)
    else s.instructionsOf c

/-- A new record that stands nowhere is placed right behind an instruction, and nothing else has
changed. -/
theorem placeAfter_inserts {u : Store} (hu : u.Sound) (hsu : s.Unmoved u) (hadds : s.AddsRecord r u)
    (hr : u.Describes r element binding loc) (hlink : s.blockOf? link = some b)
    (hmem : .ofValue link ∈ s.instructionsOf b) :
    (placeAfter r (.ofValue link)).Ends u
      (fun _ t => t.Sound ∧ u.NothingMade t ∧ s.Inserts link r element binding loc t)
      fun _ _ => False := by
  have hform : u.formOf? r = some .instruction := formOf?_of_isRecord hr.isRecord
  have hblock : u.blockOf? link = some b := (hsu.blockOf? link).trans hlink
  -- the record was not there before, so it stands in no block and has no name yet
  have hnone : u.blockOf? r = none := by
    rw [hsu.blockOf?]
    exact Option.eq_none_iff_forall_ne_some.mpr fun c hc =>
      hadds.new (has_of_formOf? (formOf?_of_blockOf? hc))
  have hseat : u.seat? r = none := by
    have hsame : u.seat? r = s.seat? r := congrArg (fun n : Naming => n.seat r) hsu.naming
    rw [hsame]
    exact Option.eq_none_iff_forall_ne_some.mpr fun seat hseat => by
      obtain ⟨o, ho, _⟩ := Option.bind_eq_some_iff.mp hseat
      exact hadds.new (has_value_iff.mpr ⟨o, ho⟩)
  have hmem' : .ofValue link ∈ u.instructionsOf b := hsu.instructionsOf b ▸ hmem
  -- four views of one placement: it answers, where it puts, what it keeps, that nothing is made
  have hanswers : (placeAfter r (.ofValue link)).Ends u (fun _ _ => True) fun _ _ => False := by
    have hb : ∀ c, some b = some c → u.Has (.value c) := by
      rintro _ ⟨⟩
      exact has_of_formOf? (formOf?_of_mem_instructionsOf hmem')
    refine placeAfter_ends_of hu.closed hform hnone hblock hmem' ?_
    refine (setBlock_answers hu.closed (fun f name h => ?_) hform hb).mono (fun _ _ _ _ => trivial)
      fun _ _ hf => hf
    cases hseat.symm.trans h
  have hputs := placeAfter_puts hu.closed hform hnone hblock hmem'
  have hplaces : (placeAfter r (.ofValue link)).Keeps (.placing {} r) u fun _ _ => True :=
    keeps_placeAfter hu.closed fun c hc =>
      keeps_placing_insertAfter hu hc (has_of_isRecord hr.isRecord) _
  have hmade := (places_nothingMade.placeAfter r (.ofValue link)).ends u
  refine (((hanswers.also hputs).also hplaces.ends).also hmade).mono ?_ fun _ _ hf => hf
  rintro _ t ⟨⟨⟨_, hputs⟩, ⟨hedited, hmoves⟩, _⟩, hmade⟩
  have hmore : u.MoreTables t := hmoves.toAside.toSameTables.more
  refine ⟨hedited.sound hu, hmade, ?_⟩
  constructor
  · constructor
    · refine ⟨hadds.toMoreTables.trans hmore, fun {v a} ha => ?_,
        fun hn => (hmade.node _).trans (hadds.node hn)⟩
      obtain ⟨o, ho, hstays, hoperands⟩ := hadds.stays ha
      have hne : v ≠ r := fun h => hadds.new (h ▸ has_value_iff.mpr ⟨a, ha⟩)
      obtain ⟨o', ho', hstays'⟩ := hmoves.stays ho (by simpa using hne)
      have hsame := hmoves.toAside.operandsOf v
      rw [operandsOf_eq ho', operandsOf_eq ho] at hsame
      exact ⟨o', ho', hstays.trans hstays', hsame.trans hoperands⟩
    · exact hadds.new
    · intro v hv
      refine (hadds.values v (hmade.has v hv)).imp_right (.imp_right ?_)
      rintro ⟨n, hn⟩
      exact ⟨n, hmore.wrappedAt hn⟩
  · exact hr.carry hmore hmoves.carries (hmoves.toAside.operandsOf r)
  · intro c
    rw [hputs.instructionsOf, hsu.instructionsOf, hsu.instructionsOf, hlink]
    by_cases hc : c = b
    · rw [if_pos hc, if_pos (by rw [hc]), hc]
    · rw [if_neg hc, if_neg fun h => hc (Option.some_inj.mp h).symm]

/-! ## Describing an element -/

/-- Making an expression leaves all else as it is. -/
theorem retains_push_expression (hs : s.Sound) (elements : List Int) :
    (s.push .node (.expression elements)).Sound ∧ s.Retains (s.push .node (.expression elements)) ∧
      s.Unmoved (s.push .node (.expression elements)) := by
  have hadmissible : (Edit.create .node (.expression elements)).Admissible {} s :=
    ⟨rfl, fun _ h => nomatch h⟩
  refine ⟨(Edit.extends_sound hs hadmissible).2, ?_, Still.push fun _ _ => .inr trivial⟩
  refine ⟨Edit.moreTables hs hadmissible, fun {v a} ha => ?_, fun {n o} hn => ?_⟩
  · refine ⟨a, ?_, .refl a, rfl⟩
    rw [get?_push_kind _ _ _ (by decide)]
    exact ha
  · have hhas : s.Has (.node n) := by
      rw [Has, hn]
      rfl
    exact (@get?_push_of_has .node s n _ hhas).trans hn

/-- Describing an element that an instruction in a block has as its second operand puts a record
right behind the instruction. -/
theorem scatterOne_inserts (hs : s.Sound) {var : Slot} (hvar : s.HasIn var) (hloc : s.HasIn loc)
    (width offset : Int) (hlink : s.blockOf? link = some b)
    (hmem : .ofValue link ∈ s.instructionsOf b)
    (helement : (s.operandsOf link)[1]? = some (.ofValue element)) :
    (scatterOne var loc width (link, offset)).Ends s (fun _ t => t.Sound ∧ ∃ r, ∃ e : NodeId,
      t.get? e = some (.expression (Expression.ofBitPiece offset width)) ∧
      s.Inserts link r element ⟨var, .ofNode e, 0⟩ loc t) fun _ _ => False := by
  let expression := Node.expression (Expression.ofBitPiece offset width)
  let e : NodeId := s.nextId .node
  let u := s.push .node expression
  obtain ⟨hu, hretains, hunmoved⟩ := retains_push_expression hs (Expression.ofBitPiece offset width)
  have hcreate : (create .node expression).run s = (.ok e, u) := rfl
  refine ends_run_bind hcreate ?_
  -- the element is read after the expression has been made, which has not touched the instruction
  have hoperand : (operandAt link 1).run u = (.ok (.ofValue element), u) := by
    obtain ⟨o, ho, _⟩ := Option.bind_eq_some_iff.mp hlink
    have hu : u.get? link = some o :=
      (@get?_push_kind .node s .value expression link (by decide)).trans ho
    rw [operandsOf_eq ho] at helement
    rw [operandAt, run_fetch_bind hu, helement]
    rfl
  refine ends_run_bind hoperand ?_
  have hgiven : s.Has (.value element) :=
    hasIn_some.mp (hs.closed.hasIn_operand (List.mem_of_getElem? helement))
  have hfound : u.HasIn (.ofNode e) := hasIn_some.mpr (has_push.mpr (.inl rfl))
  let binding : Binding := { var, expression := .ofNode e, offset := 0 }
  have hmake : (makeRecord (.ofValue element) binding loc).Ends u _ _ :=
    makeRecord_describes hu (hretains.has hgiven) (hretains.hasIn hvar) hfound (hretains.hasIn hloc)
  show ((do
    let r ← makeRecord (.ofValue element) ⟨var, .ofNode e, 0⟩ loc
    placeAfter r (.ofValue link)
    return r : Act ValueId) >>= fun _ => pure ()).Ends u _ _
  refine Ends.bind (Ends.bind hmake fun r v ⟨hv, hstill, hadds, hr⟩ => ?_) fun _ _ h => ends_pure h
  -- the record has been added to what there was before the expression, too
  have hadds' : s.AddsRecord r v := by
    refine ⟨hretains.trans hadds.toRetains, fun h => hadds.new (hretains.has h), fun x hx => ?_⟩
    refine (hadds.values x hx).imp_left fun h => ?_
    rcases has_push.mp h with heq | hold
    · cases heq
    · exact hold
  refine (placeAfter_inserts hv (hunmoved.trans hstill) hadds' hr hlink hmem).bind
    fun _ t ⟨ht, hmade, hinserts⟩ => ends_pure ⟨ht, r, e, ?_, hinserts⟩
  rw [hmade.node]
  exact hadds.node (@get?_push_self .node s expression)

end SsaDebugInfo
