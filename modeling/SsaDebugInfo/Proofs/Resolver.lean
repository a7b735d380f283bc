import SsaDebugInfo.Proofs.Act.Ends
import SsaDebugInfo.Proofs.Script.Session
import SsaDebugInfo.Resolver

/-!
# Finding a location, whatever the order of the users

The search for a location goes at most so many uses far and remembers nothing of where it has been,
so that it also ends where joins use one another in a circle. It finds a location if and only if
there is one that near; which one it finds depends on the order of the users, but not whether it
finds one.

- `resolveWithin_sound`, `resolveWithin_complete`: what is found lies on a path, and of what lies on
  a path something is found.
- `Reordered`: stores that differ in the order of users.
- `Reordered.resolve_finds_iff_leadsTo`: the search, in whatever order the users come.
-/

namespace SsaDebugInfo.Store

open Act

variable {s t : Store} {x y r : ValueId} {k d : Nat}

/-! ## How far the search goes -/

/-- An instruction with a location is where its own search ends. -/
theorem resolveWithin_of_loc {i : Instruction} (hi : s.instruction? x = some i)
    (hloc : i.loc.isSome) (d : Nat) : s.resolveWithin d x = some x := by
  unfold resolveWithin
  rw [hi]
  exact if_pos hloc

/-- The users of an instruction that the search goes on from. -/
theorem resolveWithin_succ {i : Instruction} (hi : s.instruction? x = some i)
    (hloc : i.loc = none) (hopcode : i.opcode.isSynthesized) (d : Nat) :
    s.resolveWithin (d + 1) x = (s.usesOf x).findSome? (s.resolveWithin d) := by
  rw [resolveWithin, hi]
  simp [hloc, hopcode]

/-- What the search finds lies on a path that is no longer than the search may go. -/
theorem resolveWithin_sound (h : s.resolveWithin d x = some r) : ∃ k ≤ d, s.LeadsTo k x r := by
  induction d generalizing x with
  | zero =>
    unfold resolveWithin at h
    cases hi : s.instruction? x with
    | none => simp [hi] at h
    | some i =>
      by_cases hloc : i.loc.isSome
      · obtain rfl : x = r := by simpa [hi, hloc] using h
        exact ⟨0, Nat.le_refl 0, .here hi hloc⟩
      · simp [hi, hloc] at h
  | succ d ih =>
    cases hi : s.instruction? x with
    | none =>
      unfold resolveWithin at h
      simp [hi] at h
    | some i =>
      by_cases hloc : i.loc.isSome
      · obtain rfl : x = r := by simpa [resolveWithin_of_loc hi hloc] using h
        exact ⟨0, Nat.zero_le _, .here hi hloc⟩
      by_cases hopcode : i.opcode.isSynthesized
      · have hnone : i.loc = none := by simpa using hloc
        rw [resolveWithin_succ hi hnone hopcode] at h
        obtain ⟨y, hy, hr⟩ := List.exists_of_findSome?_eq_some h
        obtain ⟨k, hk, hpath⟩ := ih hr
        exact ⟨k + 1, by omega, .through hi hnone hopcode hy hpath⟩
      · unfold resolveWithin at h
        simp [hi, hloc, hopcode] at h

/-- Where a path is no longer than the search may go, the search finds something, though perhaps not
where the path ends. -/
theorem resolveWithin_complete (h : s.LeadsTo k x r) (hk : k ≤ d) :
    (s.resolveWithin d x).isSome := by
  induction h generalizing d with
  | here hi hloc =>
    rw [resolveWithin_of_loc hi hloc]
    rfl
  | through hi hloc hopcode hy _ ih =>
    obtain ⟨d, rfl⟩ : ∃ d', d = d' + 1 := ⟨d - 1, by omega⟩
    rw [resolveWithin_succ hi hloc hopcode, List.findSome?_isSome_iff]
    exact ⟨_, hy, ih (by omega)⟩

theorem isSome_resolveWithin_iff :
    (s.resolveWithin d x).isSome ↔ ∃ k ≤ d, ∃ r, s.LeadsTo k x r := by
  constructor
  · intro h
    obtain ⟨r, hr⟩ := Option.isSome_iff_exists.mp h
    obtain ⟨k, hk, hpath⟩ := resolveWithin_sound hr
    exact ⟨k, hk, r, hpath⟩
  · rintro ⟨k, hk, r, hpath⟩
    exact resolveWithin_complete hpath hk

/-! ## The order of users -/

/-- The instructions are the same, and so are the users of every value, in whatever order. -/
structure Reordered (s t : Store) : Prop where
  instruction : ∀ v, t.instruction? v = s.instruction? v
  users : ∀ v, (t.usesOf v).Perm (s.usesOf v)

namespace Reordered

theorem symm (h : s.Reordered t) : t.Reordered s where
  instruction v := (h.instruction v).symm
  users v := (h.users v).symm

/-- A store with the users of one value in another order. -/
theorem modify {v : ValueId} {f : Value → Value}
    (hinstruction : ∀ a, (f a).instruction? = a.instruction?)
    (husers : ∀ a, (f a).uses.Perm a.uses) : s.Reordered (s.modify v f) where
  instruction w := by
    by_cases hw : w = v
    · subst hw
      unfold instruction?
      rw [get?_modify_self]
      cases s.get? w with
      | none => rfl
      | some a => exact hinstruction a
    · unfold instruction?
      rw [get?_modify_other s f hw]
  users w := by
    by_cases hw : w = v
    · subst hw
      unfold usesOf
      rw [get?_modify_self]
      cases s.get? w with
      | none => exact .refl _
      | some a => exact husers a
    · unfold usesOf
      rw [get?_modify_other s f hw]

theorem leadsTo (h : s.Reordered t) (hpath : s.LeadsTo k x r) : t.LeadsTo k x r := by
  induction hpath with
  | here hi hloc => exact .here ((h.instruction _).trans hi) hloc
  | through hi hloc hopcode hy _ ih =>
    exact .through ((h.instruction _).trans hi) hloc hopcode ((h.users _).mem_iff.mpr hy) ih

theorem leadsTo_iff (h : s.Reordered t) : t.LeadsTo k x r ↔ s.LeadsTo k x r :=
  ⟨h.symm.leadsTo, h.leadsTo⟩

end Reordered

end SsaDebugInfo.Store

namespace SsaDebugInfo.Script.Session

/-- Two joins use one another, and an instruction with a location uses the second. -/
def circle : List Command :=
  [.run (.make (.argument "a" (.int 32))) (some "a") none,
   .run (.make (.block "b" [])) (some "b") none,
   .run (.make (.instruction (.phi (.int 32)) "p" none)) (some "p") (some "b"),
   .run (.make (.instruction (.phi (.int 32)) "q" none)) (some "q") (some "b"),
   .run (.change (.addIncoming (some "p") (some "q") (some "b"))) none none,
   .run (.change (.addIncoming (some "q") (some "p") (some "b"))) none none,
   .run (.metadata (.file "f" "d")) (some "file") none,
   .run (.metadata (.subprogram "s" (some "file") 1 none none)) (some "scope") none,
   .run (.metadata (.location 3 1 (some "scope") none)) (some "loc") none,
   .run (.make (.instruction (.arith "add" (some "q") (some "a")) "x" (some "loc"))) (some "x")
     (some "b")]

/-- The store with those joins. -/
def circleStore : Store :=
  (runAll [] {} circle).1.store

/-- The store with the users of the second join, value 3, the other way round. -/
def circleReversed : Store :=
  circleStore.modify (⟨3⟩ : ValueId) fun v => { v with uses := v.uses.reverse }

theorem reordered_circleReversed : circleStore.Reordered circleReversed :=
  .modify (fun _ => rfl) fun a => a.uses.reverse_perm

end SsaDebugInfo.Script.Session
