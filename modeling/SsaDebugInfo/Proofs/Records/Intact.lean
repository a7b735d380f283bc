import SsaDebugInfo.Proofs.Attribution
import SsaDebugInfo.Proofs.Ir.Enrolment
import SsaDebugInfo.Proofs.Records.Tracking

/-!
# What looking for records leaves intact

Looking for the record of a value, and making a handle and a wrapper, fixes contexts and adds what
is new, but the program is what it was (`Store.Intact`): values keep their operands, uses and
places, functions their names, and records track what they tracked (`Store.Unaltered`).

- `Intact.fixes`, `Intact.furnishes`: what leaves the program intact.
- `Intact.asked`: what does not depend on contexts is answered as before.
- `Intact.unaltered`: nothing that concerns the program has changed.
-/

namespace SsaDebugInfo

namespace Store

variable {s t u : Store}

/-- The wrapper that a node gets in a context. -/
def newWrapper (n : NodeId) (c : Option ContextId) : Value :=
  { type := .metadata, shape := .wrapper n, context := c }

/-- What is there stays, but for its context; wrappers and handles may come. -/
def SameButContext : ObjectRelation
  | .value, o, p => (∀ v, o = some v → ∃ c, p = some { v with context := c }) ∧
      ∀ w, o = none → p = some w → ∃ n c, w = newWrapper n c
  | .node, o, p => (∀ n, o = some n → p = some n) ∧
      ∀ n, o = none → p = some n → n.handleOf?.isSome = true
  | .function, o, p => ∀ c, p.map ({ · with context := c }) = o.map ({ · with context := c })
  | .module, o, p => p = o
  | _, _, _ => True

theorem SameButContext.refl (kind : Kind) (o : Option (Object kind)) : SameButContext kind o o := by
  cases kind with
  | value => exact ⟨fun v hv => ⟨v.context, hv⟩, fun w ho hw => nomatch ho.symm.trans hw⟩
  | node => exact ⟨fun _ h => h, fun n ho hn => nomatch ho.symm.trans hn⟩
  | function => exact fun _ => rfl
  | module => exact rfl
  | _ => trivial

theorem SameButContext.trans (kind : Kind) (o p q : Option (Object kind))
    (hop : SameButContext kind o p) (hpq : SameButContext kind p q) : SameButContext kind o q := by
  cases kind with
  | value =>
    refine ⟨fun v hv => ?_, fun w ho hw => ?_⟩
    · obtain ⟨c, hp⟩ := hop.1 v hv
      obtain ⟨c', hq⟩ := hpq.1 _ hp
      exact ⟨c', hq⟩
    · cases hp : p with
      | none => exact hpq.2 w hp hw
      | some w' =>
        obtain ⟨n, c, rfl⟩ := hop.2 w' ho hp
        obtain ⟨c', hq⟩ := hpq.1 _ hp
        rw [hw] at hq
        exact ⟨n, c', Option.some_inj.mp hq⟩
  | node =>
    refine ⟨fun n hn => hpq.1 n (hop.1 n hn), fun n ho hn => ?_⟩
    cases hp : p with
    | none => exact hpq.2 n hp hn
    | some m =>
      obtain rfl := Option.some_inj.mp ((hpq.1 m hp).symm.trans hn)
      exact hop.2 m ho hp
  | function => exact fun c => (hpq c).trans (hop c)
  | module => exact Eq.trans hpq hop
  | _ => trivial

/-- The program is what it was; only contexts have been fixed, and handles and wrappers may have
come. -/
structure Intact (s t : Store) : Prop extends s.Extends t where
  same : Pointwise SameButContext s t

namespace Intact

theorem refl (s : Store) : s.Intact s :=
  ⟨.refl s, fun kind _ => SameButContext.refl kind _⟩

theorem trans (hst : s.Intact t) (htu : t.Intact u) : s.Intact u :=
  ⟨hst.toExtends.trans htu.toExtends, hst.same.trans SameButContext.trans htu.same⟩

instance : IsPreorder Store Intact where
  refl := refl
  trans _ _ _ := trans

variable {kind : Kind}

theorem modify {id : Id kind} {f : Object kind → Object kind}
    (h : ∀ o, s.get? id = some o → SameButContext kind (some o) (some (f o))) :
    s.Intact (s.modify id f) :=
  ⟨.modify id f, .modify SameButContext.refl id h⟩

theorem push {object : Object kind} (h : SameButContext kind none (some object)) :
    s.Intact (s.push kind object) :=
  ⟨.push kind object, .push SameButContext.refl kind h⟩

theorem fixes : Act.Fixes Intact where
  value v c s := by
    refine .modify fun o _ => ⟨?_, fun _ h => nomatch h⟩
    rintro _ ⟨⟩
    exact ⟨some c, rfl⟩
  function f c s := .modify fun o _ _ => rfl

theorem furnishes : Act.Furnishes Intact where
  toFixes := fixes
  wrapper n c s := by
    refine .push ⟨fun _ h => (nomatch h), ?_⟩
    rintro _ _ ⟨⟩
    exact ⟨n, some c, rfl⟩
  entry c f s := .modify fun o _ => trivial

theorem handleOf (slot : Slot) : (handleOf slot).Only Intact := by
  refine furnishes.handleOf (fun {s id v} _ => ?_) slot
  refine .push ⟨fun _ h => (nomatch h), ?_⟩
  rintro _ _ ⟨⟩
  simp

theorem wrapperOfValue (slot : Slot) : (do
    let handle ← SsaDebugInfo.handleOf slot
    wrapperOf (← contextOf slot) handle : Act ValueId).Only Intact := by
  refine (handleOf slot).bind fun handle => ?_
  exact (fixes.contextOf slot).bind fun context => furnishes.wrapperOf context handle

theorem record (entry : Entry) : (record entry).Only Intact := by
  intro s
  have hget : ∀ {kind : Kind} (id : Id kind),
      ({ s with journal := s.journal ++ [entry] } : Store).get? id = s.get? id := by
    intro kind id
    cases kind <;> rfl
  refine ⟨.of_get?_eq hget fun kind => ?_, .of_get?_eq SameButContext.refl hget⟩
  cases kind <;> rfl

variable (h : s.Intact t)

include h

theorem value {v : ValueId} {a : Value} (ha : s.get? v = some a) :
    ∃ c, t.get? v = some { a with context := c } :=
  (h.same .value v).1 a ha

theorem node {n : NodeId} {o : Node} (hn : s.get? n = some o) : t.get? n = some o :=
  (h.same .node n).1 o hn

/-- What does not depend on contexts, and is of a new wrapper what it is of nothing, has stayed. -/
theorem asked {β : Type} (q : Option Value → β)
    (hcontext : ∀ v : Value, ∀ c, q (some { v with context := c }) = q (some v))
    (hnew : ∀ n c, q (some (newWrapper n c)) = q none) (v : ValueId) :
    q (t.get? v) = q (s.get? v) := by
  obtain ⟨hold, hfresh⟩ := h.same .value v
  cases hs : s.get? v with
  | some a =>
    obtain ⟨c, ht⟩ := hold a hs
    rw [ht]
    exact hcontext a c
  | none =>
    cases ht : t.get? v with
    | none => rfl
    | some w =>
      obtain ⟨n, c, rfl⟩ := hfresh w hs ht
      exact hnew n c

theorem operandsOf (v : ValueId) : t.operandsOf v = s.operandsOf v :=
  h.asked (fun o => (o.map Value.operands).getD []) (fun _ _ => rfl) (fun _ _ => rfl) v

theorem usesOf (v : ValueId) : t.usesOf v = s.usesOf v :=
  h.asked (fun o => (o.map Value.uses).getD []) (fun _ _ => rfl) (fun _ _ => rfl) v

theorem isRecord (v : ValueId) : t.isRecord v = s.isRecord v :=
  h.asked (fun o => (o.map Value.isDebugValue).getD false) (fun _ _ => rfl) (fun _ _ => rfl) v

/-- Where everything stands and what it is called does not depend on contexts. -/
theorem unmoved : s.Unmoved t := by
  refine ⟨h.toExtends, fun kind id => ?_⟩
  cases kind with
  | value =>
    refine ⟨h.asked (fun o => (o.map Value.standing).getD {}) (fun _ _ => rfl) (fun _ _ => rfl) id,
      h.asked (fun o => o.bind Value.seat?) (fun _ _ => rfl) (fun _ _ => rfl) id,
      fun form hform => ?_, fun v hv => ?_⟩
    · exact (h.asked (fun o => o.bind Value.form?) (fun _ _ => rfl) (fun _ _ => rfl) id).trans hform
    · obtain ⟨c, ht⟩ := h.value hv
      exact ⟨_, ht, rfl⟩
  | function =>
    have hsame := h.same .function id none
    have hroster := congrArg (Option.map Function.roster) hsame
    have hregistry := congrArg (Option.map Function.registry) hsame
    rw [Option.map_map, Option.map_map] at hroster hregistry
    exact ⟨congrArg (·.getD {}) hroster, congrArg (·.getD {}) hregistry⟩
  | node => exact fun _ _ => .inr trivial
  | _ => trivial

/-- Nothing that is tracked, and nothing that tracks, has changed. -/
theorem tracks (hs : s.Sound) (r v : ValueId) : t.tracks r v = s.tracks r v := by
  -- what a record holds is there, and so is what that wraps
  have hwrapped : ∀ {w}, s.Has (.value w) → t.wrappedAt w = s.wrappedAt w := by
    intro w hw
    obtain ⟨a, ha⟩ := has_value_iff.mp hw
    obtain ⟨c, ht⟩ := h.value ha
    rw [wrappedAt, ht, wrappedAt, ha]
    rfl
  have hhandle : ∀ {n}, s.Has (.node n) → t.handleAt n = s.handleAt n := by
    intro n hn
    obtain ⟨o, ho⟩ := Option.isSome_iff_exists.mp ((has_ref n).mp hn)
    rw [handleAt, h.node ho, handleAt, ho]
  have hheld : ∀ {w rest}, s.operandsOf r = .ofValue w :: rest → s.Has (.value w) :=
    fun hw => hasIn_some.mp (hs.closed.hasIn_operand (hw ▸ List.mem_cons_self))
  have hnode : ∀ {w n}, s.wrappedAt w = some n → s.Has (.node n) := by
    intro w n hw
    obtain ⟨o, ho, hn⟩ := Option.bind_eq_some_iff.mp hw
    exact hasIn_some.mp ((hs.closed.holdsOnly ho).wrapped n hn)
  refine Bool.eq_iff_iff.mpr ?_
  rw [tracks_iff, tracks_iff, h.isRecord, h.operandsOf]
  refine and_congr_right fun _ => ?_
  constructor
  · rintro ⟨w, rest, n, hw, hn, hv, hhas⟩
    rw [hwrapped (hheld hw)] at hn
    rw [hhandle (hnode hn)] at hv
    exact ⟨w, rest, n, hw, hn, hv, h.has_value_of_lt hhas (hs.interned.given hv)⟩
  · rintro ⟨w, rest, n, hw, hn, hv, hhas⟩
    exact ⟨w, rest, n, hw, (hwrapped (hheld hw)).trans hn, (hhandle (hnode hn)).trans hv,
      h.has hhas⟩

/-- What has a name keeps it. -/
theorem nameOf? (ref : Ref) (href : s.Has ref) : t.nameOf? ref = s.nameOf? ref := by
  cases ref with
  | value v =>
    exact h.asked (fun o => o.bind Value.name?) (fun _ _ => rfl) (fun _ _ => rfl) v
  | node n =>
    obtain ⟨o, ho⟩ := Option.isSome_iff_exists.mp ((has_ref n).mp href)
    show (t.get? n).bind _ = (s.get? n).bind _
    rw [h.node ho, ho]
  | function f =>
    have hsame := congrArg (Option.map Function.name) (h.same .function f none)
    rw [Option.map_map, Option.map_map] at hsame
    exact hsame
  | module m => exact congrArg (Option.map Module.name) (h.same .module m)
  | _ => rfl

/-- The binding of a record is as it was. -/
theorem binding? (r : ValueId) :
    (t.get? r).bind Value.binding? = (s.get? r).bind Value.binding? :=
  h.asked (fun o => o.bind Value.binding?) (fun _ _ => rfl) (fun _ _ => rfl) r

/-- So is the place in the source that it is for. -/
theorem loc? (r : ValueId) :
    (t.instruction? r).map Instruction.loc = (s.instruction? r).map Instruction.loc :=
  h.asked (fun o => (o.bind Value.instruction?).map Instruction.loc) (fun _ _ => rfl)
    (fun _ _ => rfl) r

/-- What is new is a wrapper, if it is a value. -/
theorem wrapper_of_new {v : ValueId} (hv : t.Has (.value v)) (hnew : ¬ s.Has (.value v)) :
    ∃ n, t.wrappedAt v = some n := by
  obtain ⟨o, ho⟩ := has_value_iff.mp hv
  have hnone : s.get? v = none :=
    Option.not_isSome_iff_eq_none.mp fun hsome => hnew ((has_ref v).mpr hsome)
  obtain ⟨n, c, rfl⟩ := (h.same .value v).2 o hnone ho
  exact ⟨n, by rw [wrappedAt, ho]; rfl⟩

/-- The bit piece that an expression describes does not depend on contexts. -/
theorem parentPiece {slot : Slot} (hslot : s.HasIn slot) :
    t.parentPiece slot = s.parentPiece slot := by
  cases slot with
  | none => rfl
  | some ref =>
    have hnode : t.nodeIn? (some ref) = s.nodeIn? (some ref) := by
      cases ref with
      | node n =>
        obtain ⟨o, ho⟩ := Option.isSome_iff_exists.mp ((has_ref n).mp (hasIn_some.mp hslot))
        exact (h.node ho).trans ho.symm
      | _ => rfl
    unfold Store.parentPiece
    rw [hnode]

/-- The name of the variable that a record describes is read as it was. -/
theorem describedName (hs : s.Closed) (r : ValueId) : t.describedName r = s.describedName r := by
  unfold Store.describedName
  rw [h.binding?]
  cases hb : (s.get? r).bind Value.binding? with
  | none => rfl
  | some binding =>
    show found (binding.var.bind t.nameOf?) = found (binding.var.bind s.nameOf?)
    cases hvar : binding.var with
    | none => rfl
    | some ref =>
      have href : s.Has ref := hasIn_some.mp (hvar ▸ hs.hasIn_var hb)
      exact congrArg found (h.nameOf? ref href)

end Intact

/-! ## What is not altered -/

/-- There are the same records, no operand, use, link, list or name has changed, and records track
what they tracked. -/
structure Unaltered (s t : Store) : Prop where
  isRecord : ∀ v, t.isRecord v = s.isRecord v
  operandsOf : ∀ v, t.operandsOf v = s.operandsOf v
  usesOf : ∀ v, t.usesOf v = s.usesOf v
  blockOf? : ∀ v, t.blockOf? v = s.blockOf? v
  functionOf? : ∀ v, t.functionOf? v = s.functionOf? v
  instructionsOf : ∀ b, t.instructionsOf b = s.instructionsOf b
  registry : ∀ f, t.registry f = s.registry f
  tracks : ∀ r v, t.tracks r v = s.tracks r v

/-- Contexts apart, all is the same, and so nothing is altered. -/
theorem Intact.unaltered (h : s.Intact t) (hs : s.Sound) : s.Unaltered t where
  isRecord := h.isRecord
  operandsOf := h.operandsOf
  usesOf := h.usesOf
  blockOf? := h.unmoved.blockOf?
  functionOf? := h.unmoved.functionOf?
  instructionsOf := h.unmoved.instructionsOf
  registry := h.unmoved.registry
  tracks := h.tracks hs

end Store

end SsaDebugInfo
