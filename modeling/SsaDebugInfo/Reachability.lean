/-!
# Marking what can be reached

Marking starts from roots and follows edges, one round after another: a round marks what the last
round's marks lead to and was not marked before. `Reachability.Reach` is what marking should find.
-/

namespace SsaDebugInfo.Reachability

variable {α : Type} [DecidableEq α]

/-- What the frontier leads to and is not marked yet, each once. -/
def fresh (next : α → List α) (frontier marked : List α) : List α :=
  ((frontier.flatMap next).filter fun a => !marked.contains a).eraseDups

/-- Marks what the frontier leads to, round by round, until a round finds nothing or `rounds` have
passed. -/
def grow (next : α → List α) : Nat → List α → List α → List α
  | 0, _, marked => marked
  | _, [], marked => marked
  | rounds + 1, frontier, marked =>
    let found := fresh next frontier marked
    grow next rounds found (found ++ marked)

/-- What the roots lead to, in at most `rounds` rounds. -/
def mark (next : α → List α) (rounds : Nat) (roots : List α) : List α :=
  grow next rounds roots.eraseDups roots.eraseDups

/-- What can be reached from the roots along edges. -/
inductive Reach (next : α → List α) (roots : List α) : α → Prop
  | root {a : α} : a ∈ roots → Reach next roots a
  | edge {a b : α} : Reach next roots a → b ∈ next a → Reach next roots b

/-- Growing marks only what can be reached. -/
theorem reach_of_mem_grow {next : α → List α} {roots : List α} {rounds : Nat}
    {frontier marked : List α} (hf : ∀ a ∈ frontier, Reach next roots a)
    (hm : ∀ a ∈ marked, Reach next roots a) {a : α} (ha : a ∈ grow next rounds frontier marked) :
    Reach next roots a := by
  fun_induction grow next rounds frontier marked with
  | case1 => exact hm a ha
  | case2 => exact hm a ha
  | case3 rounds frontier marked _ found ih =>
    have hfound : ∀ b ∈ found, Reach next roots b := by
      intro b hb
      have hb := (List.mem_filter.mp (List.mem_eraseDups.mp hb)).1
      obtain ⟨c, hc, hbc⟩ := List.mem_flatMap.mp hb
      exact .edge (hf c hc) hbc
    refine ih hfound (fun b hb => ?_) ha
    rcases List.mem_append.mp hb with hb | hb
    · exact hfound b hb
    · exact hm b hb

/-- Marking marks only what can be reached. -/
theorem reach_of_mem_mark {next : α → List α} {roots : List α} {rounds : Nat} {a : α}
    (ha : a ∈ mark next rounds roots) : Reach next roots a :=
  reach_of_mem_grow (fun _ hb => .root (List.mem_eraseDups.mp hb))
    (fun _ hb => .root (List.mem_eraseDups.mp hb)) ha

end SsaDebugInfo.Reachability
