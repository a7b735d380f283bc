import SsaDebugInfo.Proofs.Ir.Restoring
import SsaDebugInfo.Proofs.Script.Relocation

/-!
# Registered names in scripts

Names that have been chosen can meet names that functions generate; then a name is released that
another value still has. While no names are set and values of one function have different names, at
the start of every operation and where what it has made is put where it belongs, this does not
happen: every value of a function has a name that is registered there, whether operations answer or
fault. So nothing that takes values out of functions misses a name, and what is taken out and comes
back is called what it was.

- `Movement`: what can take a value out of its function.
- `Session.keepsApart`: operations by which values stay told apart.
- `ReachableBy.names_kept`: names in every session that is reached so.
-/

namespace SsaDebugInfo

open Act Store

variable {s t : Store} {r : ValueId}

/-! ## What can take a value out of its function -/

/-- What places values, takes them out or moves them. -/
inductive Movement
  | place (placement : Placement)
  | removeFromParent (x : ValueId)
  | placeAfter (x : ValueId) (after : Slot)
  | erase (x : ValueId)
  | migrate (source target : Slot)

namespace Movement

def act : Movement → Act Unit
  | place placement => placement.act
  | removeFromParent x => SsaDebugInfo.removeFromParent x
  | placeAfter x after => SsaDebugInfo.placeAfter x after
  | erase x => SsaDebugInfo.erase x
  | migrate source target => SsaDebugInfo.migrate source target

/-- What is placed is there, and what is erased is an instruction. -/
def Possible (s : Store) : Movement → Prop
  | place placement => ∀ slot ∈ placement.needs, s.HasIn slot
  | erase x => s.formOf? x = some .instruction
  | _ => True

end Movement

/-- The ways to take an instruction out of a block. -/
def Store.TakenOutBy (s : Store) (b x : ValueId) (out : Act Unit) : Prop :=
  out = removeFrom b (.ofValue x) ∨ out = removeFromParent x ∧ s.blockOf? x = some b

theorem relocate_registered (hs : s.Sound) (hregistered : s.Registered) (hapart : s.Apart)
    (r : ValueId) (new : Slot) :
    (relocate r new).Ends s (fun _ t => t.Registered) (nameFound Registered) := by
  refine ends_get_bind ?_
  split
  · exact ends_pure hregistered
  · split
    · refine Reads.bind_plain (reads_nextInstruction _) (fun _ => nameFound.plain hregistered)
        fun next _ => ?_
      split
      · have hleaves := (removeFromParent_enrolled ⟨hregistered, hapart.but none⟩ r).also
          (apart_yields.ends_removeFromParent ⟨⟨hs, hregistered⟩, hapart⟩ r)
        refine (hleaves.mono (fun _ _ ht => ht) fun _ _ => nameFound.mono Enrolled.registered).bind
          fun _ t ⟨ht, hstart, _⟩ => ?_
        exact placeAfter_registered ht.registered hstart.1.1.closed (.inl hstart.2) new
      · exact ends_pure hregistered
    · exact ends_pure hregistered

/-- Nothing moves before the record does. -/
theorem migrate_registered (hs : s.Sound) (hregistered : s.Registered) (hapart : s.Apart)
    (source target : Slot) :
    (migrate source target).Ends s (fun _ t => t.Registered) (nameFound Registered) := by
  -- what a search for wrappers may fault with is no missing name
  have hplain : ∀ u : Store, ∀ fault, Conduct.interns.fault u fault →
      fault ≠ .nameNotRegistered := by
    rintro u _ hf rfl
    cases hf
  have hfaults : ∀ {u : Store} {fault : Fault} {q : Store}, u.Registered →
      nameFound u.Unmoved fault q → nameFound Registered fault q := fun hu =>
    nameFound.mono hu.of_unmoved
  rw [migrate_eq]
  refine (((keeps_findRecord hs source).nameFound (hplain s) (touches_findRecord source).still).mono
    (fun _ _ ht => ht) fun _ _ => hfaults hregistered).bind fun o t ⟨⟨hst, ho⟩, hstill⟩ => ?_
  have hst : s.Interns t := hst
  have ht := hregistered.of_unmoved hstill
  cases o with
  | none => exact ends_pure ht
  | some r =>
    obtain ⟨v, _, hfound⟩ := Option.bind_eq_some_iff.mp ho.symm
    obtain ⟨_, _, hfound⟩ := Option.bind_eq_some_iff.mp hfound
    have hr : t.isRecord r = true := (mem_of_recordOfWrapper? hfound).2
    refine (((keeps_wrapperForMigration (hst.sound hs) r source target).nameFound (hplain t)
      (still_wrapperForMigration r source target)).mono (fun _ _ hu => hu)
        fun _ _ => hfaults ht).bind fun w u ⟨⟨htu, v', _, hw⟩, hstill'⟩ => ?_
    have htu : t.Interns u := htu
    have hsound := htu.sound (hst.sound hs)
    have hu := ht.of_unmoved hstill'
    obtain ⟨n, hn, _⟩ := hsound.interned.of_wrapperFor? hw
    have hsets : (setOperand r 0 (.ofValue w)).Keeps (.reuses r fun _ => True) u fun _ _ => True :=
      keeps_setOperand (has_of_isRecord ((htu.isRecord (has_of_isRecord hr)).trans hr))
        hsound.closed 0 (hasIn_some.mpr (has_of_wrappedAt hn)) (fun _ _ => trivial) trivial
    refine ((hsets.nameFound (fun _ h => h) (still_setOperand r 0 _)).mono
      (fun _ _ hq => hq) fun _ _ => hfaults hu).bind fun _ q ⟨⟨huq, _⟩, hstill''⟩ => ?_
    refine relocate_registered (hsound.of_reuses huq) (hu.of_unmoved hstill'') ?_ r target
    exact hapart.of_naming ((hstill.trans hstill').trans hstill'').naming

/-- Where names are registered and values told apart, nothing that moves values misses a name. -/
theorem Movement.registered (m : Movement) (hs : s.Sound) (hregistered : s.Registered)
    (hapart : s.Apart) (hpossible : m.Possible s) :
    m.act.Ends s (fun _ t => t.Registered) (nameFound Registered) := by
  have henrolled : s.Enrolled none := ⟨hregistered, hapart.but none⟩
  cases m with
  | place placement =>
    refine hregistered.ends_place hs.closed placement hpossible ?_
    exact Bool.or_eq_true_iff.mpr (.inl (decide_eq_true hapart))
  | removeFromParent x =>
    exact (removeFromParent_enrolled henrolled x).mono (fun _ _ ht => ht.registered)
      fun _ _ => nameFound.mono Enrolled.registered
  | placeAfter x after => exact placeAfter_registered hregistered hs.closed (.inl hapart) after
  | erase x => exact erase_registered henrolled hpossible
  | migrate source target => exact migrate_registered hs hregistered hapart source target

namespace Script

/-! ## Operations by which values stay told apart -/

/-- Whether an operation sets no name of an argument, a block or an instruction. -/
def Operation.setsNoName (labels : Labels) (s : Store) : Operation → Bool
  | .change (.setName object _) => (labels.given object).value?.all fun v => (s.siteOf? v).isNone
  | _ => true

/-- Whether an operation sets no name, and values of one function have different names where it
starts and, if it has succeeded, before and after what it has made is put where it belongs. -/
def Session.keepsApart (session : Session) (operation : Operation) (_bindTo _into : Given) : Bool :=
  decide session.store.Apart && operation.setsNoName session.labels session.store &&
    match session.act (operation.perform session.labels) with
    | (.error _, _) => true
    | (.ok _, next) => decide next.store.Apart

variable {labels : Labels}

theorem Operation.follows_apart (hs : s.Apart) {operation : Operation}
    (hnames : operation.setsNoName labels s = true) :
    operation.follows .apart labels s = true := by
  have hplace : ∀ what : Change, (what.placement? labels s).all (Rule.apart.place s) = true :=
    fun what => Option.all_eq_true _ _ |>.mpr fun p _ =>
      Bool.or_eq_true_iff.mpr (.inl (decide_eq_true hs))
  have hmove : ∀ {t : Store}, t.Apart → ∀ x v, Rule.apart.move t x v = true := fun ht x v =>
    Bool.or_eq_true_iff.mpr (.inl (decide_eq_true ht))
  unfold follows
  split
  · exact hnames
  · split
    · exact hmove hs _ _
    · rfl
  · exact hplace _
  · exact decide_eq_true hs
  · exact decide_eq_true hs
  · split
    · next hrun _ =>
      have hstill : Unmoved s _ :=
        ((touches_findRecord (c := { nodes := fun _ => True }) _).still.ends s).ok hrun
      exact hmove (hs.of_naming hstill.naming) _ _
    · rfl
  · rfl

theorem Session.follows_apart {session : Session} {operation : Operation} {bindTo into : Given}
    (h : session.keepsApart operation bindTo into = true) :
    session.follows .apart operation bindTo into = true := by
  unfold keepsApart at h
  rw [Bool.and_eq_true, Bool.and_eq_true, decide_eq_true_eq] at h
  obtain ⟨⟨hs, hnames⟩, hnext⟩ := h
  unfold follows
  rw [Bool.and_eq_true, Bool.and_eq_true]
  refine ⟨⟨Operation.follows_apart hs hnames, ?_⟩, ?_⟩
  · split
    · rfl
    · next hact =>
      rw [hact] at hnext
      refine (Option.all_eq_true _ _).mpr fun p _ => ?_
      exact Bool.or_eq_true_iff.mpr (.inl hnext)
  · split
    · rfl
    · rfl

namespace Session

variable {session : Session}

/-- While names are not set and values of one function have different names, every value of a
function has a name that is registered. -/
theorem ReachableBy.registered (h : ReachableBy keepsApart session) :
    session.store.Registered := by
  refine (h.induction (P := fun s => s.Sound ∧ s.Registered) ⟨sound_initial, registered_initial⟩
    ?_ ?_ ?_).2
  · intro session operation bindTo into hs hstore hallowed
    have hapart : session.store.Apart := by
      unfold keepsApart at hallowed
      rw [Bool.and_eq_true, Bool.and_eq_true, decide_eq_true_eq] at hallowed
      exact hallowed.1.1
    exact apart_yields.holds_after hs ⟨hstore, hapart⟩ (follows_apart hallowed)
  · exact fun hst ht hs => ⟨ht, hs.2.of_unmoved hst⟩
  · exact fun _ hs => ⟨hs.1.collect, hs.2.collect _⟩

/-- While names are not set and values of one function have different names, every value of a
function has a name that is registered there. So where values are told apart still, nothing that
moves values misses a name; an instruction that is taken out of a block and placed in a block of its
function, and instructions of a block that are set in another order, are called what they were, as
is all else, and functions have the names and the numbers that they had. -/
theorem ReachableBy.names_kept (h : ReachableBy keepsApart session) :
    (∀ v f, session.store.functionOf? v = some f → ∃ name,
      session.store.nameOf? (.value v) = some name ∧ name ∈ (session.store.registry f).names) ∧
    (session.store.Apart →
      (∀ m : Movement, m.Possible session.store →
        (m.act.run session.store).1 ≠ .error .nameNotRegistered) ∧
      (∀ x f b c p, session.store.formOf? x = some .instruction →
        session.store.functionOf? x = some f → .ofValue x ∈ session.store.instructionsOf b →
        session.store.formOf? c = some .block → session.store.functionOf? c = some f →
        Placement.put? p = some (c, x) →
        ∀ out, session.store.TakenOutBy b x out →
          session.store.NamesBack ((do out; p.act : Act Unit).run session.store).2 ∧
            ∀ fault, ((do out; p.act : Act Unit).run session.store).1 = .error fault →
              fault = .notInList ∧ p ≠ .append c x) ∧
      ∀ b f insns, session.store.functionOf? b = some f →
        (∀ slot ∈ session.store.instructionsOf b, ∃ x, slot = .ofValue x ∧
          session.store.blockOf? x = some b ∧ session.store.functionOf? x = some f) →
        insns.Perm (session.store.instructionsOf b) →
        ((setInstructions b insns).run session.store).1 = .ok () ∧
          session.store.NamesBack ((setInstructions b insns).run session.store).2) := by
  have hregistered := h.registered
  have hsound := h.sound.store
  have hproper := h.reachable.proper
  refine ⟨fun v f hf => ?_, fun hapart => ⟨fun m hpossible hlost => ?_, ?_, ?_⟩⟩
  · obtain ⟨name, hseat, hname⟩ := exists_seat? hf
    exact ⟨name, hname, hregistered v f name hseat⟩
  · exact ((m.registered hsound hregistered hapart hpossible).error (run_eq_error hlost)).1 rfl
  · intro x f b c p hx hf hmem hc hcf hp out hout
    have hrestores := place_restores hregistered hapart hsound.closed hproper hx hf hmem hc hcf hp
    -- an instruction that is linked to the block is taken out of it by either way
    have hruns : (do out; p.act : Act Unit).run session.store =
        (do removeFrom b (.ofValue x); p.act : Act Unit).run session.store := by
      rcases hout with rfl | ⟨rfl, hb⟩
      · rfl
      · rw [run_bind, run_removeFromParent hb, ← run_bind]
    rw [hruns]
    exact ⟨(hrestores.mono (fun _ _ ht => ht) fun _ _ hf => hf.2).left,
      fun fault hfault => (hrestores.error (run_eq_error hfault)).1⟩
  · intro b f insns hb hlist hperm
    have hends := setInstructions_restores hregistered hapart hsound.closed hproper hb hlist hperm
    refine ⟨?_, hends.sure.left⟩
    cases hrun : ((setInstructions b insns).run session.store).1 with
    | ok => rfl
    | error fault => exact (hends.error (run_eq_error hrun)).elim

/-- Two blocks that are called the same, in two functions, and two sums. The first sum is to be put
into the second block in front of the other one, which is not there: so it enters the second
function, and is on the list of the first block still. It is taken from there and comes back. -/
def strayingNames : List Command :=
  [.run (.make (.argument "a" (.int 32))) (some "a") none,
   .run (.make (.function "f" .void [some "a"] none none)) (some "f") none,
   .run (.make (.block "x" [])) (some "entry") (some "f"),
   .run (.make (.function "g" .void [] none none)) (some "g") none,
   .run (.make (.block "x" [])) (some "other") (some "g"),
   .run (.make (.instruction (.arith "add" (some "a") (some "a")) "x" none)) (some "p")
     (some "entry"),
   .run (.make (.instruction (.arith "add" (some "a") (some "a")) "" none)) (some "q")
     (some "entry"),
   .run (.change (.insert (some "other") (some "p") (some "q"))) none none,
   .run (.change (.remove (some "entry") (some "p"))) none none,
   .run (.change (.append (some "entry") (some "p"))) none none]

/-- The sums, values 3 and 4, have got names in the first function. They keep them when they change
places, and when the second one is taken out and put at the end again; and the first one can enter
the second block, value 2. -/
theorem names_kept_strayingNames :
    ReachableBy keepsApart (runAll [] {} strayingNames).1 ∧
      (runAll [] {} strayingNames).2[7]?.map Step.isFailed = some true ∧
      (runAll [] {} strayingNames).1.store.instructionsOf ⟨1⟩ = [.ofValue ⟨4⟩, .ofValue ⟨3⟩] ∧
      "x.1" ∈ ((runAll [] {} strayingNames).1.store.registry ⟨0⟩).names ∧
      ((appendTo ⟨2⟩ ⟨3⟩).run (runAll [] {} strayingNames).1.store).1 ≠
        .error .nameNotRegistered ∧
      ((setInstructions ⟨1⟩ [.ofValue ⟨3⟩, .ofValue ⟨4⟩]).run
        (runAll [] {} strayingNames).1.store).1 = .ok () ∧
      (((setInstructions ⟨1⟩ [.ofValue ⟨3⟩, .ofValue ⟨4⟩]).run
        (runAll [] {} strayingNames).1.store).2.registry ⟨0⟩).names.Perm
          ["a", "x", "UNN.2", "x.1"] ∧
      ((do removeFromParent ⟨4⟩; appendTo ⟨1⟩ ⟨4⟩ : Act Unit).run
        (runAll [] {} strayingNames).1.store).2.siteOf? ⟨4⟩ = some ⟨"UNN.2", some ⟨0⟩⟩ := by
  have h : ReachableBy keepsApart (runAll [] {} strayingNames).1 :=
    reachableBy_runAll .new (by decide +kernel)
  have hstart : (runAll [] {} strayingNames).1.store.Apart ∧
      (runAll [] {} strayingNames).1.store.instructionsOf ⟨1⟩ = [.ofValue ⟨4⟩, .ofValue ⟨3⟩] ∧
      (runAll [] {} strayingNames).1.store.formOf? ⟨1⟩ = some .block ∧
      (runAll [] {} strayingNames).1.store.functionOf? ⟨1⟩ = some ⟨0⟩ ∧
      (runAll [] {} strayingNames).1.store.formOf? ⟨4⟩ = some .instruction ∧
      (∀ i ∈ [3, 4], (runAll [] {} strayingNames).1.store.blockOf? ⟨i⟩ = some ⟨1⟩ ∧
        (runAll [] {} strayingNames).1.store.functionOf? ⟨i⟩ = some ⟨0⟩) ∧
      (runAll [] {} strayingNames).1.store.siteOf? ⟨4⟩ = some ⟨"UNN.2", some ⟨0⟩⟩ ∧
      ((runAll [] {} strayingNames).1.store.registry ⟨0⟩).names = ["a", "x", "UNN.2", "x.1"] ∧
      (runAll [] {} strayingNames).1.store.nameOf? (.value ⟨3⟩) = some "x.1" ∧
      (runAll [] {} strayingNames).1.store.Has (.value ⟨2⟩) ∧
      (runAll [] {} strayingNames).1.store.Has (.value ⟨3⟩) := by
    decide +kernel
  obtain ⟨hapart, hlist, hblock, hfunction, hsum, hplaced, hsecond, hnames, hname, hother,
    hhas⟩ := hstart
  obtain ⟨hregistered, hkept⟩ := ReachableBy.names_kept h
  obtain ⟨hmovements, hrestores, hexchanges⟩ := hkept hapart
  obtain ⟨hset, hback⟩ := hexchanges ⟨1⟩ ⟨0⟩ [.ofValue ⟨3⟩, .ofValue ⟨4⟩] hfunction
    (by
      rw [hlist]
      exact List.forall_mem_cons.mpr ⟨⟨⟨4⟩, rfl, hplaced 4 (by decide)⟩,
        List.forall_mem_singleton.mpr ⟨⟨3⟩, rfl, hplaced 3 (by decide)⟩⟩)
    (by
      rw [hlist]
      exact .swap _ _ _)
  refine ⟨h, by decide +kernel, hlist, ?_, ?_, hset, ?_, ?_⟩
  · obtain ⟨name, hname', hmem⟩ := hregistered ⟨3⟩ ⟨0⟩ (hplaced 3 (by decide)).2
    rw [hname] at hname'
    obtain rfl := Option.some_inj.mp hname'
    exact hmem
  · exact hmovements (.place (.append ⟨2⟩ ⟨3⟩)) (List.forall_mem_cons.mpr ⟨hasIn_some.mpr hother,
      List.forall_mem_singleton.mpr (hasIn_some.mpr hhas)⟩)
  · exact hnames ▸ hback.names ⟨0⟩
  · have hrestored := hrestores ⟨4⟩ ⟨0⟩ ⟨1⟩ ⟨1⟩ (.append ⟨1⟩ ⟨4⟩) hsum (hplaced 4 (by decide)).2
      (by simp [hlist]) hblock hfunction rfl (removeFromParent ⟨4⟩)
      (.inr ⟨rfl, (hplaced 4 (by decide)).1⟩)
    exact (hrestored.1.siteOf? ⟨4⟩).trans hsecond

end Session

end Script

end SsaDebugInfo
