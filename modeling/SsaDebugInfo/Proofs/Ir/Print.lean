import SsaDebugInfo.Proofs.Ir.Predecessors

/-!
# Which texts can be written

A function is written out with all its blocks, and a block with the names of its predecessors. While
users and operands agree, and links and lists, and joins take data from blocks, all of this can be
written except for three things: where an instruction is said to come from, a predecessor that is no
block, and an expression with a number that is too long.

- `Store.WrapsOlder`: what a wrapper wraps is older, so that writing it comes to an end.
- `Store.isOk_operandText`, `Store.isOk_entityText_iff`: values that can be written.
- `Store.isOk_functionText_iff`: functions that can be written.
-/

namespace SsaDebugInfo

section Combining

variable {α β : Type}

theorem isOk_iff {x : Except Fault α} : x.isOk = true ↔ ∃ a, x = .ok a := by
  cases x with
  | ok a => simp [Except.isOk, Except.toBool]
  | error e => simp [Except.isOk, Except.toBool]

/-- Steps in sequence can be carried out if the first one can and the second one after it. -/
theorem isOk_bind {x : Except Fault α} {f : α → Except Fault β} :
    (x >>= f).isOk = true ↔ ∃ a, x = .ok a ∧ (f a).isOk = true := by
  cases x with
  | ok a => simp [bind, Except.bind]
  | error e => simp [bind, Except.bind, Except.isOk, Except.toBool]

/-- What is done with an answer does not matter if it can be done with every answer. -/
theorem isOk_bind_iff {x : Except Fault α} {f : α → Except Fault β} (hf : ∀ a, (f a).isOk = true) :
    (x >>= f).isOk = true ↔ x.isOk = true := by
  cases x with
  | ok a => exact ⟨fun _ => rfl, fun _ => hf a⟩
  | error e => exact Iff.rfl

theorem isOk_map {x : Except Fault α} {f : α → β} : (f <$> x).isOk = true ↔ x.isOk = true := by
  cases x with
  | ok a => exact Iff.rfl
  | error e => exact Iff.rfl

/-- All entries of a list can be written if each of them can. -/
theorem isOk_mapM {f : α → Except Fault β} {l : List α} :
    (l.mapM f).isOk = true ↔ ∀ a ∈ l, (f a).isOk = true := by
  induction l with
  | nil => simp [pure, Except.pure, Except.isOk, Except.toBool]
  | cons a rest ih =>
    rw [List.mapM_cons, isOk_bind, List.forall_mem_cons, ← ih]
    constructor
    · rintro ⟨b, hb, hrest⟩
      exact ⟨isOk_iff.mpr ⟨b, hb⟩, (isOk_bind_iff fun _ => rfl).mp hrest⟩
    · rintro ⟨ha, hrest⟩
      obtain ⟨b, hb⟩ := isOk_iff.mp ha
      exact ⟨b, hb, (isOk_bind_iff fun _ => rfl).mpr hrest⟩

theorem isOk_found {o : Option α} : (found o).isOk = true ↔ o.isSome = true := by
  cases o with
  | none => exact Iff.rfl
  | some a => exact Iff.rfl

end Combining

/-- What is paired up is in the list. -/
theorem mem_of_mem_pairs {α : Type} {l : List α} {p : α × α} (h : p ∈ pairs l) :
    p.1 ∈ l ∧ p.2 ∈ l := by
  fun_induction pairs l with
  | case1 a b rest ih =>
    rcases List.mem_cons.mp h with rfl | h
    · simp
    · obtain ⟨hfst, hsnd⟩ := ih h
      simp [hfst, hsnd]
  | case2 => cases h

namespace Store

variable {s t : Store} {roots : List Slot}

/-! ## Wrappers are younger than what they wrap -/

/-- A value is older than every wrapper of its handle. -/
def WrapsOlder (s : Store) : Prop :=
  ∀ w h v, s.wrappedAt w = some h → s.handleAt h = some v → v.index < w.index

/-- Whether wrappers hold older values depends on nodes and tables alone. -/
theorem WrapsOlder.of_sameTables (hs : s.WrapsOlder) (h : s.SameTables t) : t.WrapsOlder := by
  intro w n v hw hn
  rw [h.wrappedAt] at hw
  rw [h.handleAt] at hn
  exact hs w n v hw hn

/-- Every admissible edit leaves wrappers younger than what they wrap: a new handle has no wrapper
yet, and a new wrapper is younger than everything. -/
theorem WrapsOlder.kept_by_edit {d : Discipline} {e : Edit} (hs : s.Sound) (h : s.WrapsOlder)
    (he : e.Admissible d s) : (e.act.run s).2.WrapsOlder := by
  cases e with
  | addHandle context value handle =>
    intro w n v hw hn
    have hw : (s.addHandle context value handle).wrappedAt w = some n := hw
    have hn : (s.addHandle context value handle).handleAt n = some v := hn
    rw [wrappedAt_addHandle] at hw
    obtain ⟨o, ho, hwrapped⟩ := Option.bind_eq_some_iff.mp hw
    have hnode : s.Has (.node n) := (hs.closed.holdsOnly ho).wrapped n hwrapped _ rfl
    rw [handleAt_addHandle, if_neg (ne_nextId hnode)] at hn
    exact h w n v hw hn
  | addWrapper context node =>
    intro w n v hw hn
    have hw : (s.addWrapper context node).wrappedAt w = some n := hw
    have hn : (s.addWrapper context node).handleAt n = some v := hn
    rw [handleAt_addWrapper] at hn
    rw [wrappedAt_addWrapper] at hw
    split at hw
    · next hnew =>
      subst hnew
      exact hs.interned.given hn
    · exact h w n v hw hn
  | _ =>
    refine h.of_sameTables (Edit.sameTables hs he ?_ ?_)
    · intro context value handle heq
      cases heq
    · intro context node heq
      cases heq

/-- Collection leaves wrappers what they hold. -/
theorem WrapsOlder.collect (h : s.WrapsOlder) : (s.collect roots).WrapsOlder := by
  intro w n v hw hn
  rw [wrappedAt_collect] at hw
  rw [handleAt_collect] at hn
  split at hw
  · split at hn
    · exact h w n v hw hn
    · cases hn
  · cases hw

end Store

theorem wrapsOlder_initial : Store.initial.WrapsOlder := by
  intro w n v hw
  rw [Store.wrappedAt, Store.get?_initial w (by decide), Option.bind_none] at hw
  cases hw

namespace Store

variable {s : Store}

/-! ## Operands -/

/-- A node that is there can be written if what it is a handle of can be, unless that is gone. -/
theorem isOk_printNodeWith {operand : ValueId → Except Fault String} {id : NodeId}
    (hid : s.Has (.node id))
    (h : ∀ v, s.handleAt id = some v → s.Has (.value v) → (operand v).isOk = true) :
    (s.printNodeWith operand id).isOk = true := by
  obtain ⟨n, hn⟩ := Option.isSome_iff_exists.mp hid
  have hhandle : ∀ v, n.handleOf? = some v →
      (if (s.get? v).isSome then operand v
        else pure ("!" ++ n.kindName ++ "(<deleted>)")).isOk = true := by
    intro v hv
    by_cases hhas : (s.get? v).isSome
    · rw [if_pos hhas]
      exact h v (by rw [handleAt, hn]; exact hv) hhas
    · rw [if_neg hhas]
      rfl
  refine isOk_bind.mpr ⟨n, by rw [hn]; rfl, ?_⟩
  cases n with
  | constantHandle v => exact hhandle v rfl
  | localHandle v => exact hhandle v rfl
  | _ => rfl

section

variable (hs : s.Closed) (hwraps : s.WrapsOlder)

include hs hwraps

/-- Every value can be written as an operand, since what has to be written for it gets older. -/
theorem isOk_operandTextWithin {fuel : Nat} {v : ValueId} (hv : s.Has (.value v))
    (hfuel : v.index < fuel) : (s.operandTextWithin fuel v).isOk = true := by
  induction fuel generalizing v with
  | zero => exact absurd hfuel (Nat.not_lt_zero _)
  | succ fuel ih =>
    obtain ⟨o, ho⟩ := has_value_iff.mp hv
    refine isOk_bind.mpr ⟨o, by rw [ho]; rfl, ?_⟩
    cases hshape : o.shape with
    | wrapper node =>
      have hwrapped : o.wrapped? = some node := by rw [Value.wrapped?, hshape]
      have hwrappedAt : s.wrappedAt v = some node := by rw [wrappedAt, ho]; exact hwrapped
      refine (isOk_bind_iff fun _ => rfl).mpr (isOk_printNodeWith ?_ fun v' hhandle hv' => ?_)
      · exact (hs.holdsOnly ho).wrapped node hwrapped _ rfl
      · have hlt := hwraps _ _ _ hwrappedAt hhandle
        exact ih hv' (Nat.lt_of_lt_of_le hlt (Nat.lt_succ_iff.mp hfuel))
    | _ => rfl

/-- A value that is there can be written as an operand. -/
theorem isOk_operandText {v : ValueId} (hv : s.Has (.value v)) : (s.operandText v).isOk = true :=
  isOk_operandTextWithin hs hwraps hv (Nat.lt_succ_self _)

/-- An operand that is a value can be written. -/
theorem isOk_slotText {slot : Slot} (h : ∃ v, slot = .ofValue v ∧ s.Has (.value v)) :
    (s.slotText slot).isOk = true := by
  obtain ⟨v, rfl, hv⟩ := h
  exact isOk_operandText hs hwraps hv

/-- If there is an expression in a slot, its numbers are short enough to be written. -/
def WritableIn (s : Store) (slot : Slot) : Prop :=
  ∀ elements ∈ (s.nodeIn? slot).bind (·.elements?),
    elements.all Text.Numeral.isWritable = true

instance (slot : Slot) : Decidable (s.WritableIn slot) :=
  inferInstanceAs (Decidable (∀ elements ∈ (s.nodeIn? slot).bind (·.elements?), _))

/-- A node can be written if and only if its numbers can, should it be an expression. -/
theorem isOk_printNode_iff {id : NodeId} (hid : s.Has (.node id)) :
    (s.printNode id).isOk = true ↔ s.WritableIn (.ofNode id) := by
  obtain ⟨n, hn⟩ := Option.isSome_iff_exists.mp hid
  have hwritable : s.WritableIn (.ofNode id) ↔
      ∀ elements ∈ n.elements?, elements.all Text.Numeral.isWritable = true := by
    rw [WritableIn, show s.nodeIn? (.ofNode id) = some n from hn, Option.bind_some]
  have hother : n.elements? = none → ((s.printNodeWith s.operandText id).isOk = true ↔
      s.WritableIn (.ofNode id)) := by
    intro hnone
    rw [hwritable, hnone]
    exact iff_of_true (isOk_printNodeWith hid fun v _ hv => isOk_operandText hs hwraps hv)
      fun _ h => nomatch h
  unfold printNode
  rw [hn]
  cases n with
  | expression elements =>
    rw [hwritable]
    show (Expression.write elements).isOk = true ↔ _
    unfold Expression.write
    by_cases hall : elements.all Text.Numeral.isWritable = true
    · rw [if_pos hall]
      exact iff_of_true rfl fun _ h => Option.some_inj.mp h ▸ hall
    · rw [if_neg hall]
      exact iff_of_false (fun h => nomatch h) fun h => hall (h elements rfl)
  | _ => exact hother rfl

/-- What a record says of its variable or its expression can be written if and only if its numbers
can, should it be an expression. -/
theorem isOk_printDescribed_iff {slot : Slot} (h : s.HasIn slot) :
    (s.printDescribed slot).isOk = true ↔ s.WritableIn slot := by
  unfold printDescribed
  split
  · exact iff_of_true rfl fun _ hnone => nomatch hnone
  · exact isOk_printNode_iff hs hwraps (hasIn_some.mp h)
  · next ref hnode =>
    refine iff_of_true rfl fun elements helements => ?_
    obtain ⟨n, hn, _⟩ := Option.bind_eq_some_iff.mp helements
    cases ref with
    | node id => exact (hnode id rfl).elim
    | _ => cases hn

/-! ## Instructions -/

/-- If there is a join in a slot, the data that flow into it come from blocks. -/
def JoinsBlocks (s : Store) (slot : Slot) : Prop :=
  ∀ v ∈ s.valueIn? slot, v.2.opcode? = some .phi →
    ∀ p ∈ v.2.incoming, ∃ b ∈ p.2.value?, s.formOf? b = some .block

instance (slot : Slot) : Decidable (s.JoinsBlocks slot) :=
  inferInstanceAs (Decidable (∀ v ∈ s.valueIn? slot, _))

omit hs hwraps in
/-- Blocks have names. -/
theorem isSome_nameOf? {b : ValueId} (h : s.formOf? b = some .block) :
    (s.nameOf? (.value b)).isSome = true := by
  obtain ⟨o, ho, hblock⟩ := formOf?_eq_block.mp h
  rw [nameOf?, ho, Option.bind_some]
  obtain ⟨_, shape, _, _⟩ := o
  cases shape with
  | block => rfl
  | _ => cases hblock

/-- What flows into a join can be written, if it is a value that comes from a block. -/
theorem isOk_incomingText {p : Slot × Slot} (hvalue : ∃ v, p.1 = .ofValue v ∧ s.Has (.value v))
    (hblock : ∃ b ∈ p.2.value?, s.formOf? b = some .block) : (s.incomingText p).isOk = true := by
  obtain ⟨b, hb, hform⟩ := hblock
  obtain ⟨name, hname⟩ := Option.isSome_iff_exists.mp (isSome_nameOf? hform)
  refine isOk_bind.mpr ⟨name, ?_, ?_⟩
  · rw [Slot.value?_eq_some_iff.mp hb, Option.bind_some, hname]
    rfl
  · exact (isOk_bind_iff fun _ => rfl).mpr (isOk_slotText hs hwraps hvalue)

/-- Operands that are values, and those of a join from blocks, can be written after an opcode if and
only if what the opcode binds can be. -/
theorem isOk_operandsText_iff {operands : List Slot} {opcode : Opcode}
    (hvalues : ∀ slot ∈ operands, ∃ v, slot = .ofValue v ∧ s.Has (.value v))
    (hsome : operands ≠ [])
    (hjoins : opcode = .phi → ∀ p ∈ pairs operands, ∃ b ∈ p.2.value?, s.formOf? b = some .block)
    (hbinding : ∀ b, opcode.binding? = some b → s.HasIn b.var ∧ s.HasIn b.expression) :
    (s.operandsText operands opcode).isOk = true ↔
      ∀ b ∈ opcode.binding?, s.WritableIn b.var ∧ s.WritableIn b.expression := by
  unfold operandsText
  split
  · refine iff_of_true ?_ fun _ h => nomatch h
    refine (isOk_bind_iff fun _ => rfl).mpr (isOk_mapM.mpr fun p hp => ?_)
    exact isOk_incomingText hs hwraps (hvalues _ (mem_of_mem_pairs hp).1) (hjoins rfl p hp)
  · next binding =>
    obtain ⟨hvar, hexpression⟩ := hbinding binding rfl
    obtain ⟨slot, rest, rfl⟩ := List.exists_cons_of_ne_nil hsome
    obtain ⟨text, htext⟩ :=
      isOk_iff.mp (isOk_slotText hs hwraps (hvalues slot List.mem_cons_self))
    have hhead : s.slotText (slot :: rest).head?.join = .ok text := by
      obtain ⟨v, rfl, _⟩ := hvalues slot List.mem_cons_self
      exact htext
    -- a record binds once, so that the condition is one on this binding
    have hboth : (∀ b ∈ (Opcode.debugValue binding).binding?,
        s.WritableIn b.var ∧ s.WritableIn b.expression) ↔
        s.WritableIn binding.var ∧ s.WritableIn binding.expression :=
      ⟨fun h => h binding rfl, fun h _ hb => Option.some_inj.mp hb ▸ h⟩
    rw [hboth, ← isOk_printDescribed_iff hs hwraps hvar,
      ← isOk_printDescribed_iff hs hwraps hexpression, hhead]
    show (s.printDescribed binding.var >>= fun _ => s.printDescribed binding.expression >>=
      fun _ => pure _).isOk = true ↔ _
    rw [isOk_bind]
    constructor
    · rintro ⟨var, hvar, h⟩
      exact ⟨isOk_iff.mpr ⟨var, hvar⟩, (isOk_bind_iff fun _ => rfl).mp h⟩
    · rintro ⟨hvar, h⟩
      obtain ⟨var, hvar⟩ := isOk_iff.mp hvar
      exact ⟨var, hvar, (isOk_bind_iff fun _ => rfl).mpr h⟩
  · next hphi hdebug =>
    refine iff_of_true ?_ fun b hb => ?_
    · refine (isOk_bind_iff fun _ => rfl).mpr (isOk_mapM.mpr fun slot hslot => ?_)
      exact isOk_slotText hs hwraps (hvalues slot hslot)
    · cases opcode with
      | debugValue binding => exact (hdebug binding rfl).elim
      | _ => cases hb

omit hs hwraps in
/-- It can be written what the record in a slot describes, unless the record has lost its operand
and tells of nothing any more. -/
def Describable (s : Store) (slot : Slot) : Prop :=
  ∀ v ∈ s.valueIn? slot, v.2.operands.any (·.isSome) = true →
    ∀ b ∈ v.2.binding?, s.WritableIn b.var ∧ s.WritableIn b.expression

instance (slot : Slot) : Decidable (s.Describable slot) :=
  inferInstanceAs (Decidable (∀ v ∈ s.valueIn? slot, _))

/-- An instruction whose operands are values can be written if and only if it can be written what it
describes, should it be a record. -/
theorem isOk_entityText_iff {x : ValueId} {o : Value} {i : Instruction} (ho : s.get? x = some o)
    (hi : o.instruction? = some i) (hvalues : ∀ slot ∈ o.operands, ∃ v, slot = .ofValue v)
    (hjoins : s.JoinsBlocks (.ofValue x)) :
    (s.entityText x).isOk = true ↔ s.Describable (.ofValue x) := by
  have hholds := hs.holdsOnly ho
  have hoperands : ∀ slot ∈ o.operands, ∃ v, slot = .ofValue v ∧ s.Has (.value v) := by
    intro slot hslot
    obtain ⟨v, rfl⟩ := hvalues slot hslot
    exact ⟨v, rfl, hasIn_some.mp (hholds.operands _ hslot)⟩
  have hx : s.valueIn? (.ofValue x) = some (x, o) := valueIn?_eq_some.mpr ⟨rfl, ho⟩
  have hjoins : o.opcode? = some .phi → ∀ p ∈ o.incoming,
      ∃ b ∈ p.2.value?, s.formOf? b = some .block := hjoins (x, o) hx
  have hdescribable : s.Describable (.ofValue x) ↔ (o.operands.any (·.isSome) = true →
      ∀ b ∈ o.binding?, s.WritableIn b.var ∧ s.WritableIn b.expression) := by
    rw [Describable, hx]
    exact ⟨fun h => h _ rfl, fun h v hv => Option.some_inj.mp hv ▸ h⟩
  rw [hdescribable]
  unfold entityText
  rw [ho]
  obtain ⟨_, shape, _, _⟩ := o
  cases shape with
  | instruction site operands j =>
    obtain rfl : j = i := Option.some_inj.mp hi
    show (s.instructionText _ site operands j).isOk = true ↔
      (operands.any (·.isSome) = true → ∀ b ∈ j.opcode.binding?, _)
    unfold instructionText
    dsimp only
    -- an instruction that has lost its operands is written without them
    split
    · next hany =>
      refine ((isOk_bind_iff fun _ => rfl).trans isOk_map).trans ?_
      have hsome : operands ≠ [] := by
        rintro rfl
        cases hany
      have htext : (s.operandsText operands j.opcode).isOk = true ↔
          ∀ b ∈ j.opcode.binding?, s.WritableIn b.var ∧ s.WritableIn b.expression :=
        isOk_operandsText_iff hs hwraps hoperands hsome (fun hphi => hjoins (congrArg some hphi))
          fun b hb => ⟨hholds.var b hb, hholds.expression b hb⟩
      exact htext.trans ⟨fun h _ => h, fun h => h hany⟩
    · next hnone => exact iff_of_true rfl fun hany => absurd hany hnone
  | _ => cases hi

end

/-! ## Blocks -/

/-- It can be told where the instruction in a slot comes from. -/
def Located (s : Store) (slot : Slot) : Prop :=
  ∀ insn ∈ s.instructionIn? slot, (s.locationComment insn.2.loc).isOk = true

instance (slot : Slot) : Decidable (s.Located slot) :=
  inferInstanceAs (Decidable (∀ insn ∈ s.instructionIn? slot, _))

/-- The lines of an instruction, and of those after it. -/
theorem isOk_instructionLines_cons {locs : Bool} {current loc : Slot} {rest : List Slot}
    {x : ValueId}
    (hloc : (if locs then (·.2.loc) <$> found (s.instructionIn? (.ofValue x)) else pure current) =
      .ok loc) :
    (s.instructionLines locs current (.ofValue x :: rest)).isOk = true ↔
      (loc ≠ current → (s.locationComment loc).isOk = true) ∧ (s.entityText x).isOk = true ∧
        (s.instructionLines locs loc rest).isOk = true := by
  have hline : ∀ comment : List String, (do
      let text ← s.entityText x
      let lines ← s.instructionLines locs loc rest
      return comment ++ ("  " ++ text) :: lines : Except Fault (List String)).isOk = true ↔
        (s.entityText x).isOk = true ∧ (s.instructionLines locs loc rest).isOk = true := by
    intro comment
    rw [isOk_bind]
    constructor
    · rintro ⟨text, htext, h⟩
      exact ⟨isOk_iff.mpr ⟨text, htext⟩, (isOk_bind_iff fun _ => rfl).mp h⟩
    · rintro ⟨hentity, h⟩
      obtain ⟨text, htext⟩ := isOk_iff.mp hentity
      exact ⟨text, htext, (isOk_bind_iff fun _ => rfl).mpr h⟩
  -- the comment is written if the instruction comes from somewhere else than the one before
  have hcommented : (do
      let comment ←
        if loc = current then pure [] else List.singleton <$> s.locationComment loc
      let text ← s.entityText x
      let lines ← s.instructionLines locs loc rest
      return comment ++ ("  " ++ text) :: lines : Except Fault (List String)).isOk = true ↔
        (loc ≠ current → (s.locationComment loc).isOk = true) ∧ (s.entityText x).isOk = true ∧
          (s.instructionLines locs loc rest).isOk = true := by
    by_cases hsame : loc = current
    · rw [if_pos hsame]
      exact (hline []).trans (by simp [hsame])
    · rw [if_neg hsame, isOk_bind]
      constructor
      · rintro ⟨comment, hcomment, h⟩
        exact ⟨fun _ => isOk_map.mp (isOk_iff.mpr ⟨comment, hcomment⟩), (hline comment).mp h⟩
      · rintro ⟨hcomment, h⟩
        obtain ⟨comment, hcomment⟩ := isOk_iff.mp (isOk_map.mpr (hcomment hsame))
        exact ⟨comment, hcomment, (hline comment).mpr h⟩
  rw [← hcommented, instructionLines]
  cases locs with
  | false =>
    obtain rfl : current = loc := by simpa [pure, Except.pure] using hloc
    exact Iff.rfl
  | true =>
    have hloc : (·.2.loc) <$> found (s.instructionIn? (.ofValue x)) = .ok loc := hloc
    dsimp only
    rw [if_pos rfl, hloc]
    exact Iff.rfl

/-- The lines of a block's instructions can be written if and only if each of these can be and, with
comments, it can be told where they come from: each place is told before the first instruction that
comes from it. -/
theorem isOk_instructionLines_iff {locs : Bool} {current : Slot} {insns : List Slot}
    (hinsns : ∀ slot ∈ insns, ∃ x i, s.instructionIn? slot = some (x, i) ∧
      ((s.entityText x).isOk = true ↔ s.Describable slot))
    (hcurrent : locs = true → (s.locationComment current).isOk = true) :
    (s.instructionLines locs current insns).isOk = true ↔
      (∀ slot ∈ insns, s.Describable slot) ∧ (locs = true → ∀ slot ∈ insns, s.Located slot) := by
  induction insns generalizing current with
  | nil => exact ⟨fun _ => ⟨fun _ h => (nomatch h), fun _ _ h => nomatch h⟩, fun _ => rfl⟩
  | cons slot rest ih =>
    obtain ⟨⟨x, i, hin, hentity⟩, hrest⟩ := List.forall_mem_cons.mp hinsns
    obtain rfl := (instructionIn?_eq_some.mp hin).1
    have hlocated : s.Located (.ofValue x) ↔ (s.locationComment i.loc).isOk = true := by
      unfold Located
      rw [hin]
      simp
    rw [List.forall_mem_cons, List.forall_mem_cons, ← hentity]
    cases locs with
    | false =>
      have hloc : (if false = true then (·.2.loc) <$> found (s.instructionIn? (.ofValue x))
          else pure current) = .ok current := rfl
      rw [isOk_instructionLines_cons hloc, ih hrest hcurrent]
      simp
    | true =>
      have hloc : (if true = true then (·.2.loc) <$> found (s.instructionIn? (.ofValue x))
          else pure current) = .ok i.loc := by
        rw [if_pos rfl, hin]
        rfl
      -- the place that is current has been told of before, so that one more time does not matter
      have hcomment : (i.loc ≠ current → (s.locationComment i.loc).isOk = true) ↔
          s.Located (.ofValue x) := by
        rw [hlocated]
        constructor
        · intro h
          by_cases hsame : i.loc = current
          · rw [hsame]
            exact hcurrent rfl
          · exact h hsame
        · exact fun h _ => h
      rw [isOk_instructionLines_cons hloc, hcomment]
      constructor
      · rintro ⟨hslot, htext, h⟩
        obtain ⟨htexts, hplaces⟩ := (ih hrest fun _ => hlocated.mp hslot).mp h
        exact ⟨⟨htext, htexts⟩, fun _ => ⟨hslot, hplaces rfl⟩⟩
      · rintro ⟨⟨htext, htexts⟩, hplaces⟩
        obtain ⟨hslot, hplaces⟩ := hplaces rfl
        exact ⟨hslot, htext,
          (ih hrest fun _ => hlocated.mp hslot).mpr ⟨htexts, fun _ => hplaces⟩⟩

/-- The first line of a block of a function can be written if and only if all its predecessors are
blocks. -/
theorem isOk_blockHeader_iff {b : ValueId} {site : Site} (hfunction : site.function.isSome = true)
    (hblocks : ∀ c, some c ∈ s.predecessors b → s.formOf? c = some .block) :
    (s.blockHeader b site).isOk = true ↔ none ∉ s.predecessors b := by
  unfold blockHeader
  dsimp only
  rw [if_neg (by simpa using Option.isSome_iff_ne_none.mp hfunction)]
  refine (isOk_bind_iff fun _ => rfl).trans (isOk_mapM.trans ?_)
  constructor
  · intro h hnone
    have hfound : (found (none : Option String)).isOk = true := h none hnone
    cases hfound
  · intro hnone p hp
    cases p with
    | none => exact absurd hp hnone
    | some c => exact isOk_found.mpr (isSome_nameOf? (hblocks c hp))

/-- A block of a function can be written if and only if all its predecessors are blocks, its
instructions can be written and, where this is asked for, it can be told where they come from. -/
theorem isOk_blockText_iff {locs : Bool} {b : ValueId} {f : FunctionId}
    (hb : s.formOf? b = some .block) (hf : s.functionOf? b = some f)
    (hblocks : ∀ c, some c ∈ s.predecessors b → s.formOf? c = some .block)
    (hinsns : ∀ slot ∈ s.instructionsOf b, ∃ x i, s.instructionIn? slot = some (x, i) ∧
      ((s.entityText x).isOk = true ↔ s.Describable slot)) :
    (s.valueText locs b).isOk = true ↔ none ∉ s.predecessors b ∧
      (∀ slot ∈ s.instructionsOf b, s.Describable slot) ∧
      (locs = true → ∀ slot ∈ s.instructionsOf b, s.Located slot) := by
  obtain ⟨o, ho, hblock⟩ := formOf?_eq_block.mp hb
  have hinstructions : s.instructionsOf b = o.instructions := by rw [instructionsOf, ho]; rfl
  have hfunction : o.function? = some f := by
    rw [functionOf?, ho] at hf
    exact hf
  rw [hinstructions] at hinsns ⊢
  obtain ⟨_, shape, _, _⟩ := o
  cases shape with
  | block site instructions =>
    have hsite : site.function.isSome = true := by
      rw [show site.function = some f from hfunction]
      rfl
    have htext : s.valueText locs b = (do
        let header ← s.blockHeader b site
        let lines ← s.instructionLines locs none instructions
        return "\n".intercalate (header :: lines)) := by
      unfold valueText blockText
      rw [ho]
      rfl
    have hlines : (s.instructionLines locs none instructions).isOk = true ↔
        (∀ slot ∈ instructions, s.Describable slot) ∧
          (locs = true → ∀ slot ∈ instructions, s.Located slot) :=
      isOk_instructionLines_iff hinsns fun _ => rfl
    rw [htext, isOk_bind, ← isOk_blockHeader_iff hsite hblocks]
    refine Iff.trans ?_ (and_congr_right' hlines)
    constructor
    · rintro ⟨header, hheader, hlines⟩
      exact ⟨isOk_iff.mpr ⟨header, hheader⟩, (isOk_bind_iff fun _ => rfl).mp hlines⟩
    · rintro ⟨hheader, hlines⟩
      obtain ⟨header, hheader⟩ := isOk_iff.mp hheader
      exact ⟨header, hheader, (isOk_bind_iff fun _ => rfl).mpr hlines⟩
  | _ => cases hblock

/-! ## Functions and modules -/

/-- A function whose joins take data from blocks can be written if and only if all predecessors of
its blocks are blocks, it can be written what its records describe and, where this is asked for, it
can be told where its instructions come from. -/
theorem isOk_functionText_iff (hs : s.Closed) (hwraps : s.WrapsOlder) (huses : s.UseDef)
    (h : s.Contained) {locs : Bool} {f : FunctionId} (hf : s.Has (.function f))
    (hjoins : ∀ b ∈ (s.roster f).blocks, ∀ slot ∈ s.instructionsOf b, s.JoinsBlocks slot) :
    (s.functionText locs f).isOk = true ↔
      (∀ b ∈ (s.roster f).blocks, none ∉ s.predecessors b) ∧
        (∀ b ∈ (s.roster f).blocks, ∀ slot ∈ s.instructionsOf b, s.Describable slot) ∧
        (locs = true → ∀ b ∈ (s.roster f).blocks, ∀ slot ∈ s.instructionsOf b,
          s.Located slot) := by
  obtain ⟨o, ho⟩ := Option.isSome_iff_exists.mp ((has_ref f).mp hf)
  have hroster : s.roster f = o.roster := roster_eq ho
  -- arguments can always be written, so it comes down to the blocks
  have harguments : (o.arguments.mapM s.slotText).isOk = true := by
    refine isOk_mapM.mpr fun slot hslot => isOk_slotText hs hwraps ?_
    have hslot : slot ∈ (s.roster f).arguments := by rwa [hroster]
    obtain ⟨v, rfl, hform, _⟩ := (h.argument f slot).mp hslot
    exact ⟨v, rfl, has_of_formOf? hform⟩
  have hblocks : ∀ b c, some c ∈ s.predecessors b → s.formOf? c = some .block := by
    intro b c hc
    obtain ⟨x, _, hblock⟩ := (mem_predecessors huses).mp hc
    exact formOf?_of_mem_instructionsOf (h.mem_instructionsOf.mpr hblock)
  -- what stands in a block is an instruction, and can be written if it is describable
  have hinsns : ∀ b ∈ (s.roster f).blocks, ∀ slot ∈ s.instructionsOf b,
      ∃ x i, s.instructionIn? slot = some (x, i) ∧
        ((s.entityText x).isOk = true ↔ s.Describable slot) := by
    intro b hb slot hslot
    obtain ⟨x, rfl, hblock⟩ := (h.instruction b slot).mp hslot
    obtain ⟨p, i, hp, hi⟩ := formOf?_eq_instruction.mp (formOf?_of_blockOf? hblock)
    refine ⟨x, i, instructionIn?_eq_some.mpr ⟨rfl, p, hp, hi⟩, ?_⟩
    refine isOk_entityText_iff hs hwraps hp hi (fun o ho => ?_) (hjoins b hb _ hslot)
    rw [← operandsOf_eq hp] at ho
    exact (huses x).value ho
  have hvalues : (∀ b ∈ o.blocks, (s.valueText locs b).isOk = true) ↔
      (∀ b ∈ (s.roster f).blocks, none ∉ s.predecessors b) ∧
        (∀ b ∈ (s.roster f).blocks, ∀ slot ∈ s.instructionsOf b, s.Describable slot) ∧
        (locs = true → ∀ b ∈ (s.roster f).blocks, ∀ slot ∈ s.instructionsOf b,
          s.Located slot) := by
    have hblock : ∀ b ∈ (s.roster f).blocks, (s.valueText locs b).isOk = true ↔
        none ∉ s.predecessors b ∧ (∀ slot ∈ s.instructionsOf b, s.Describable slot) ∧
          (locs = true → ∀ slot ∈ s.instructionsOf b, s.Located slot) := by
      intro b hb
      obtain ⟨hform, hfunction⟩ := (h.block f b).mp hb
      exact isOk_blockText_iff hform hfunction (hblocks b) (hinsns b hb)
    rw [show o.blocks = (s.roster f).blocks by rw [hroster]; rfl]
    constructor
    · intro hok
      exact ⟨fun b hb => ((hblock b hb).mp (hok b hb)).1,
        fun b hb => ((hblock b hb).mp (hok b hb)).2.1,
        fun hlocs b hb => ((hblock b hb).mp (hok b hb)).2.2 hlocs⟩
    · rintro ⟨hnone, hdescribable, hlocated⟩ b hb
      exact (hblock b hb).mpr ⟨hnone b hb, hdescribable b hb, fun hlocs => hlocated hlocs b hb⟩
  rw [← hvalues, ← isOk_mapM]
  obtain ⟨arguments, harguments⟩ := isOk_iff.mp harguments
  unfold functionText
  rw [ho]
  show (o.arguments.mapM s.slotText >>= fun _ => o.blocks.mapM (s.valueText locs) >>= fun _ =>
    pure _).isOk = true ↔ _
  rw [harguments]
  show (o.blocks.mapM (s.valueText locs) >>= _).isOk = true ↔ _
  exact isOk_bind_iff fun _ => rfl

/-- A module can be written if and only if its global variables and its functions can. -/
theorem isOk_moduleText_iff {locs : Bool} {module : ModuleId} {m : Module}
    (hm : s.get? module = some m) :
    (s.moduleText locs module).isOk = true ↔ (∀ v ∈ m.globals, (s.entityText v).isOk = true) ∧
      ∀ f ∈ m.functions, (s.functionText locs f).isOk = true := by
  rw [← isOk_mapM, ← isOk_mapM]
  unfold moduleText
  rw [hm]
  show (m.globals.mapM s.entityText >>= fun _ => m.functions.mapM (s.functionText locs) >>=
    fun _ => pure _).isOk = true ↔ _
  rw [isOk_bind]
  constructor
  · rintro ⟨globals, hglobals, hfunctions⟩
    exact ⟨isOk_iff.mpr ⟨globals, hglobals⟩, (isOk_bind_iff fun _ => rfl).mp hfunctions⟩
  · rintro ⟨hglobals, hfunctions⟩
    obtain ⟨globals, hglobals⟩ := isOk_iff.mp hglobals
    exact ⟨globals, hglobals, (isOk_bind_iff fun _ => rfl).mpr hfunctions⟩

end Store

end SsaDebugInfo
