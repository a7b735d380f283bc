import SsaDebugInfo.Ir.Build
import SsaDebugInfo.Proofs.Records.Calls
import SsaDebugInfo.Proofs.Script.Invariants
import SsaDebugInfo.Resolver

/-!
# Calls of the debug operations

The debug operations make, place and rebind records, and do nothing else to the program, wherever
they fault. So what a location is resolved to, and which blocks precede a block, does not depend on
debug records.

- `Undisturbed.leadsTo_iff`, `Undisturbed.resolveWithin`: what instructions are resolved to.
- `Undisturbed.predecessors`: what precedes a block.
- `Reachable.undisturbed_debugCall`: a call of a debug operation leaves the program undisturbed.
-/

namespace SsaDebugInfo

open Act Store

variable {d : Discipline} {s t : Store}

/-- The first hit in a list depends on what the search makes of the members alone. -/
theorem findSome?_congr {α β : Type} {f g : α → Option β} {l : List α} (h : ∀ a ∈ l, f a = g a) :
    l.findSome? f = l.findSome? g := by
  induction l with
  | nil => rfl
  | cons a rest ih =>
    obtain ⟨ha, hrest⟩ := List.forall_mem_cons.mp h
    rw [List.findSome?_cons, List.findSome?_cons, ha, ih hrest]

theorem Value.Carries.symm {v w : Value} (h : v.Carries w) : w.Carries v :=
  ⟨h.type.symm, h.opcode.symm, h.loc.symm⟩

/-- An instruction keeps what it does and where it comes from. -/
theorem Value.Carries.opcode_loc {v w : Value} (h : v.Carries w) {i : Instruction}
    (hi : v.instruction? = some i) :
    ∃ j, w.instruction? = some j ∧ j.opcode = i.opcode ∧ j.loc = i.loc := by
  obtain ⟨j, hj, hopcode⟩ := h.instruction? hi
  have hloc := h.loc
  rw [hj, hi] at hloc
  exact ⟨j, hj, hopcode, Option.some_inj.mp hloc⟩

theorem Value.wrapped?_of_instruction? {v : Value} {i : Instruction} (h : v.instruction? = some i) :
    v.wrapped? = none := by
  obtain ⟨_, shape, _, _⟩ := v
  cases shape with
  | instruction => rfl
  | _ => cases h

theorem Value.wrapped?_of_isBlock {v : Value} (h : v.isBlock = true) : v.wrapped? = none := by
  obtain ⟨_, shape, _, _⟩ := v
  cases shape with
  | block => rfl
  | _ => cases h

/-- A terminator is no debug record. -/
theorem Value.isDebugValue_of_isTerminator {v : Value} {i : Instruction}
    (hi : v.instruction? = some i) (h : i.opcode.isTerminator = true) : v.isDebugValue = false := by
  have hbinding : i.opcode.binding? = none := by
    cases hopcode : i.opcode with
    | debugValue =>
      rw [hopcode] at h
      cases h
    | _ => rfl
  rw [isDebugValue, binding?, opcode?, hi, Option.map_some, Option.bind_some, hbinding]
  rfl

namespace Store

theorem instruction?_eq {x : ValueId} {v : Value} (h : s.get? x = some v) :
    s.instruction? x = v.instruction? := by
  rw [instruction?, h]
  rfl

/-- Two stores show the same of some values: the instructions among them do the same, come from the
same places and are used by the same values, which are among them again. -/
structure Agree (among : ValueId → Prop) (s t : Store) : Prop where
  carries : ∀ {x i}, among x → s.instruction? x = some i →
    ∃ j, t.instruction? x = some j ∧ j.opcode = i.opcode ∧ j.loc = i.loc
  none : ∀ {x}, among x → s.instruction? x = none → t.instruction? x = none
  users : ∀ {x i}, among x → s.instruction? x = some i → t.usesOf x = s.usesOf x
  among_user : ∀ {x i y}, among x → s.instruction? x = some i → y ∈ s.usesOf x → among y

namespace Agree

variable {among : ValueId → Prop}

theorem symm (h : Agree among s t) : Agree among t s where
  carries {x j} hx hj := by
    cases hi : s.instruction? x with
    | none =>
      rw [h.none hx hi] at hj
      cases hj
    | some i =>
      obtain ⟨j', hj', hopcode, hloc⟩ := h.carries hx hi
      obtain rfl := Option.some_inj.mp (hj.symm.trans hj')
      exact ⟨i, rfl, hopcode.symm, hloc.symm⟩
  none {x} hx hj := by
    cases hi : s.instruction? x with
    | none => rfl
    | some i =>
      obtain ⟨j, hj', _⟩ := h.carries hx hi
      rw [hj'] at hj
      cases hj
  users {x j} hx hj := by
    cases hi : s.instruction? x with
    | none =>
      rw [h.none hx hi] at hj
      cases hj
    | some i => exact (h.users hx hi).symm
  among_user {x j y} hx hj hy := by
    cases hi : s.instruction? x with
    | none =>
      rw [h.none hx hi] at hj
      cases hj
    | some i =>
      rw [h.users hx hi] at hy
      exact h.among_user hx hi hy

theorem leadsTo (h : Agree among s t) {k : Nat} {x r : ValueId} (hx : among x)
    (hleads : s.LeadsTo k x r) : t.LeadsTo k x r := by
  induction hleads with
  | here hi hloc =>
    obtain ⟨j, hj, _, hloc'⟩ := h.carries hx hi
    exact .here hj (hloc' ▸ hloc)
  | through hi hloc hopcode hy _ ih =>
    obtain ⟨j, hj, hopcode', hloc'⟩ := h.carries hx hi
    refine .through hj (hloc'.trans hloc) (hopcode' ▸ hopcode) ?_ (ih (h.among_user hx hi hy))
    rwa [h.users hx hi]

theorem resolveWithin (h : Agree among s t) (k : Nat) {x : ValueId} (hx : among x) :
    t.resolveWithin k x = s.resolveWithin k x := by
  induction k generalizing x with
  | zero =>
    -- without steps left only the location of the instruction itself counts
    unfold Store.resolveWithin
    cases hi : s.instruction? x with
    | none => rw [h.none hx hi]
    | some i =>
      obtain ⟨j, hj, _, hloc⟩ := h.carries hx hi
      rw [hj]
      simp only [hloc]
  | succ k ih =>
    unfold Store.resolveWithin
    cases hi : s.instruction? x with
    | none => rw [h.none hx hi]
    | some i =>
      obtain ⟨j, hj, hopcode, hloc⟩ := h.carries hx hi
      -- the same users come in the same order, and each resolves to the same
      have husers : (t.usesOf x).findSome? (t.resolveWithin k) =
          (s.usesOf x).findSome? (s.resolveWithin k) := by
        rw [h.users hx hi]
        exact findSome?_congr fun y hy => ih (h.among_user hx hi hy)
      rw [hj]
      simp only [hloc, hopcode, husers]

end Agree

namespace Undisturbed

/-- What an undisturbed program shows of the values that were there. -/
theorem agree (hs : s.Closed) (h : s.Undisturbed (fun v => s.Has (.value v)) t) :
    Agree (fun v => s.Has (.value v)) s t where
  carries hx hi := by
    obtain ⟨a, ha, hi⟩ := Option.bind_eq_some_iff.mp hi
    obtain ⟨b, hb, hab⟩ := h.carries hx ha
    obtain ⟨j, hj, hsame⟩ := hab.opcode_loc hi
    exact ⟨j, (instruction?_eq hb).trans hj, hsame⟩
  none hx hi := by
    obtain ⟨a, ha⟩ := has_value_iff.mp hx
    obtain ⟨b, hb, hab⟩ := h.carries hx ha
    rw [instruction?_eq ha] at hi
    rw [instruction?_eq hb]
    cases hj : b.instruction? with
    | none => rfl
    | some j =>
      obtain ⟨i, hi', _⟩ := hab.symm.instruction? hj
      rw [hi'] at hi
      cases hi
  users hx hi := by
    obtain ⟨a, ha, hi⟩ := Option.bind_eq_some_iff.mp hi
    exact h.usesOf hx hx ((wrappedAt_eq ha).trans (Value.wrapped?_of_instruction? hi))
  among_user _ _ hy := hs.has_user hy

/-- From an instruction one comes to the same instructions with a location. -/
theorem leadsTo_iff (hs : s.Closed) (h : s.Undisturbed (fun v => s.Has (.value v)) t) {k : Nat}
    {x r : ValueId} (hx : s.Has (.value x)) : t.LeadsTo k x r ↔ s.LeadsTo k x r :=
  ⟨(h.agree hs).symm.leadsTo hx, (h.agree hs).leadsTo hx⟩

/-- A block has the same predecessors. -/
theorem predecessors (hs : s.Closed) (h : s.Undisturbed (fun v => s.Has (.value v)) t)
    {b : ValueId} {a : Value} (ha : s.get? b = some a) (hblock : a.isBlock = true) :
    t.predecessors b = s.predecessors b := by
  have hb : s.Has (.value b) := has_value_iff.mpr ⟨a, ha⟩
  have huses : t.usesOf b = s.usesOf b :=
    h.usesOf hb hb ((wrappedAt_eq ha).trans (Value.wrapped?_of_isBlock hblock))
  unfold Store.predecessors
  rw [huses]
  refine List.filterMap_congr fun user huser => ?_
  have hhas := hs.has_user huser
  cases hi : s.instruction? user with
  | none => rw [(h.agree hs).none hhas hi]
  | some i =>
    obtain ⟨j, hj, hopcode, _⟩ := (h.agree hs).carries hhas hi
    rw [hj]
    show (if j.opcode.isTerminator then some j.block else none) =
      if i.opcode.isTerminator then some i.block else none
    rw [hopcode]
    split
    · next hterminator =>
      -- a terminator is no record, so that it stands where it stood
      obtain ⟨o, ho, hi⟩ := Option.bind_eq_some_iff.mp hi
      have hrecord := Value.isDebugValue_of_isTerminator hi hterminator
      obtain ⟨p, hp, hop⟩ := h.stays hhas ho hrecord
      have hblock := hop.block
      rw [instruction?_eq hp] at hj
      rw [Value.block?, Value.block?, hj, hi] at hblock
      exact congrArg some hblock
    · rfl

end Undisturbed

end Store

/-! ## Calls -/

/-- Records made by the debug operations hold wrappers. -/
theorem Store.Recorded.wrappedRecords (h : s.Recorded) : s.WrappedRecords := by
  intro r hr
  rcases (h r hr).2 with hnone | ⟨w, hw, n, _, hwrapped, _⟩
  · exact .inl hnone
  · exact .inr ⟨w, hw, by rw [hwrapped]; exact Option.some_ne_none n⟩

/-- A call of one of the operations that make, place or rebind debug records. -/
inductive DebugCall
  | make (value : Slot) (binding : Binding) (loc : Slot)
  | bind (value : Slot) (binding : Binding) (loc before after : Slot)
  | migrate (source target : Slot)
  | scatter (value : Slot)

namespace DebugCall

/-- What a call does. -/
def act : DebugCall → Act Unit
  | make value binding loc => do let _ ← makeRecord value binding loc
  | bind value binding loc before after => do let _ ← bindValue value binding loc before after
  | migrate source target => SsaDebugInfo.migrate source target
  | scatter value => SsaDebugInfo.scatter value

/-- What a call is handed. -/
def arguments : DebugCall → List Slot
  | make value binding loc => [value, binding.var, binding.expression, loc]
  | bind value binding loc before after =>
    [value, binding.var, binding.expression, loc, before, after]
  | migrate source target => [source, target]
  | scatter value => [value]

/-- Whatever a call is handed, it makes admissible edits and leaves the program undisturbed, if
records hold wrappers. -/
theorem keeps_act (hs : s.Sound) (hsteady : d.steady = false) (call : DebugCall)
    (harguments : ∀ slot ∈ call.arguments, s.HasIn slot) :
    call.act.Keeps (.records d (fun v => s.Has (.value v)) s.WrappedRecords) s
      fun _ _ => True := by
  cases call with
  | make value binding loc =>
    have hmake : Act.Keeps (.records d (fun v => s.Has (.value v)) s.WrappedRecords) _ s _ :=
      keeps_makeRecord hs (fun _ h => h) value binding
        (harguments binding.var (by simp [arguments]))
        (harguments binding.expression (by simp [arguments])) (harguments loc (by simp [arguments]))
    exact hmake.bind fun _ _ _ _ => keeps_pure trivial
  | bind value binding loc before after =>
    have hbind : Act.Keeps (.records d (fun v => s.Has (.value v)) s.WrappedRecords) _ s _ :=
      keeps_bindValue hs (fun _ h => h) value binding (harguments binding.var (by simp [arguments]))
        (harguments binding.expression (by simp [arguments])) (harguments loc (by simp [arguments]))
        before after
    exact hbind.bind fun _ _ _ _ => keeps_pure trivial
  | migrate source target => exact keeps_migrate hs hsteady (fun h => h) source target
  | scatter value => exact keeps_scatter hs (fun _ h => h) value

end DebugCall

namespace Script.Session

variable {session : Session}

/-- While records have no operand or a single wrapper, a call of a debug operation leaves the
program undisturbed in every reachable session, whether it answers or faults. So the same
instructions with a location are come to from every instruction, in as many steps, the first of them
is the same, and every block has the same predecessors. -/
theorem Reachable.undisturbed_debugCall (h : Reachable d session)
    (hwrapped : session.store.WrappedRecords) (call : DebugCall)
    (harguments : ∀ slot ∈ call.arguments, session.store.HasIn slot) :
    session.store.Undisturbed (fun v => session.store.Has (.value v))
      (call.act.run session.store).2 ∧
    (∀ k x r, session.store.Has (.value x) →
      ((call.act.run session.store).2.LeadsTo k x r ↔ session.store.LeadsTo k x r)) ∧
    (∀ k x, session.store.Has (.value x) →
      (call.act.run session.store).2.resolveWithin k x = session.store.resolveWithin k x) ∧
    ∀ b a, session.store.get? b = some a → Value.isBlock a = true →
      (call.act.run session.store).2.predecessors b = session.store.predecessors b := by
  have hs := h.sound.store
  have hkeeps := DebugCall.keeps_act (d := {}) hs rfl call harguments
  have hundisturbed := hkeeps.change.2 hwrapped
  exact ⟨hundisturbed, fun _ _ _ hx => hundisturbed.leadsTo_iff hs.closed hx,
    fun k _ hx => (hundisturbed.agree hs.closed).resolveWithin k hx,
    fun _ _ ha hblock => hundisturbed.predecessors hs.closed ha hblock⟩

/-- A vector put together from an argument, with a record, in a block that branches to another. -/
def putTogether : List Command :=
  [.run (.make (.argument "x" (.int 32))) (some "x") none,
   .run (.make (.undef (.vector 1 (.int 32)) none)) (some "base") none,
   .run (.make (.constant (.integer 0) (.int 32) none)) (some "zero") none,
   .run (.make (.block "entry" [])) (some "entry") none,
   .run (.make (.block "exit" [])) (some "exit") none,
   .run (.make (.instruction (.insertElement (some "base") (some "x") (some "zero")) "built" none))
     (some "built") (some "entry"),
   .run (.make (.instruction (.branch (some "exit")) "" none)) none (some "entry"),
   .run (.metadata (.localVariable "v" none none 1 0)) (some "v") none,
   .run (.make (.bind (some "built") (some "v") none none 0 (.beside none (some "built"))))
     (some "record") none]

/-- Scattering the record of the vector, value 5, adds a record to the first block, value 3, and
leaves the program and the predecessors of the other block, value 4, as they are. -/
theorem undisturbed_scatter_putTogether :
    Reachable { records := true } (runAll [] {} putTogether).1 ∧
      (runAll [] {} putTogether).1.store.WrappedRecords ∧
      (((scatter (.ofValue ⟨5⟩)).run
        (runAll [] {} putTogether).1.store).2.instructionsOf ⟨3⟩).length =
        ((runAll [] {} putTogether).1.store.instructionsOf ⟨3⟩).length + 1 ∧
      (runAll [] {} putTogether).1.store.Undisturbed
        (fun v => (runAll [] {} putTogether).1.store.Has (.value v))
        ((scatter (.ofValue ⟨5⟩)).run (runAll [] {} putTogether).1.store).2 := by
  have h : Reachable { records := true } (runAll [] {} putTogether).1 :=
    reachable_runAll .new (by decide +kernel)
  have hwrapped := (h.recorded rfl).wrappedRecords
  have hvector : (runAll [] {} putTogether).1.store.Has (.value ⟨5⟩) := by decide +kernel
  refine ⟨h, hwrapped, by decide +kernel, ?_⟩
  exact (Reachable.undisturbed_debugCall h hwrapped (.scatter (.ofValue ⟨5⟩))
    (List.forall_mem_singleton.mpr (hasIn_some.mpr hvector))).1

end Script.Session

end SsaDebugInfo
