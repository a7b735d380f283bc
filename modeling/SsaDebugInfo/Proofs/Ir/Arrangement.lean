import Mathlib.Data.List.Nodup
import SsaDebugInfo.Proofs.Store.Standing

/-!
# Arrangements in which links and lists agree

In an arrangement that is contained, whatever has a link stands in the list that the link leads to,
once, and whatever stands in a list has the link. It is informed if instructions have the function
of the block that they stand in. Placing things amounts to three changes of an arrangement:

- `Arrangement.exchange`: some instructions leave a block and others enter it;
- `Arrangement.enlist`: a function exchanges its arguments;
- `Arrangement.settle`: a block enters a function.

`Contained.exchange`, `Informed.exchange` and the like say when these keep an arrangement contained
and informed.
-/

namespace SsaDebugInfo.Arrangement

variable {a : Arrangement} {b : ValueId} {f : FunctionId}

/-- The function that a value belongs to. -/
def function? (a : Arrangement) (v : ValueId) : Option FunctionId :=
  (a.standing v).home.map (·.2)

/-- Links and lists agree, and no list has anything twice. -/
structure Contained (a : Arrangement) : Prop where
  instruction : ∀ b slot, slot ∈ (a.standing b).instructions ↔
    ∃ x, slot = .ofValue x ∧ (a.standing x).block = some b
  block : ∀ f b, b ∈ (a.roster f).blocks ↔ (a.standing b).home = some (.block, f)
  argument : ∀ f slot, slot ∈ (a.roster f).arguments ↔
    ∃ v, slot = .ofValue v ∧ (a.standing v).home = some (.argument, f)
  instructionsOnce : ∀ b, (a.standing b).instructions.Nodup
  blocksOnce : ∀ f, (a.roster f).blocks.Nodup
  argumentsOnce : ∀ f, (a.roster f).arguments.Nodup

/-- Instructions have the function of the block that they stand in. -/
def Informed (a : Arrangement) : Prop :=
  ∀ b x, .ofValue x ∈ (a.standing b).instructions → a.function? x = a.function? b

theorem Contained.mem_instructions (h : a.Contained) {x : ValueId} :
    .ofValue x ∈ (a.standing b).instructions ↔ (a.standing x).block = some b := by
  rw [h.instruction]
  constructor
  · rintro ⟨x', hx, hblock⟩
    obtain rfl : x = x' := by simpa using hx
    exact hblock
  · exact fun hblock => ⟨x, rfl, hblock⟩

/-- Where nothing stands anywhere, links and lists agree. -/
theorem contained_empty : Contained ⟨fun _ => {}, fun _ => {}⟩ where
  instruction _ _ := ⟨(nomatch ·), fun ⟨_, _, h⟩ => nomatch h⟩
  block _ _ := ⟨(nomatch ·), (nomatch ·)⟩
  argument _ _ := ⟨(nomatch ·), fun ⟨_, _, h⟩ => nomatch h⟩
  instructionsOnce _ := List.nodup_nil
  blocksOnce _ := List.nodup_nil
  argumentsOnce _ := List.nodup_nil

theorem informed_empty : Informed ⟨fun _ => {}, fun _ => {}⟩ :=
  fun _ _ h => nomatch h

/-! ## Exchanging instructions of a block -/

/-- The arrangement where some instructions have left a block and others have entered it, which has
the given list and function then. -/
def exchange (a : Arrangement) (b : ValueId) (out into list : List Slot)
    (function : Option FunctionId) : Arrangement :=
  { a with
    standing := fun v => {
      home :=
        if .ofValue v ∈ into then function.map (.instruction, ·)
        else if .ofValue v ∈ out then none else (a.standing v).home
      block :=
        if .ofValue v ∈ into then some b
        else if .ofValue v ∈ out then none else (a.standing v).block
      instructions := if v = b then list else (a.standing v).instructions } }

/-- What leaves the block stands in it, what enters it stands nowhere else, and the list tells what
stands in the block then. -/
structure Exchanges (a : Arrangement) (b : ValueId) (out into list : List Slot) : Prop where
  leaves : ∀ slot ∈ out, slot ∈ (a.standing b).instructions
  enters : ∀ slot ∈ into, ∃ x, slot = .ofValue x ∧
    ((a.standing x).block = none ∨ (a.standing x).block = some b)
  instructions : ∀ x, Slot.ofValue x ∈ out ++ into → (a.standing x).instructions = []
  form : ∀ x, Slot.ofValue x ∈ out ++ into → ∀ form f, (a.standing x).home = some (form, f) →
    form = .instruction
  mem : ∀ slot, slot ∈ list ↔ slot ∈ into ∨ slot ∈ (a.standing b).instructions ∧ slot ∉ out
  nodup : list.Nodup

section Exchange

variable {out into list : List Slot} {function : Option FunctionId}

/-- Only what enters a block stands in it then without having stood there. -/
theorem Exchanges.block_eq_some (h : a.Contained) (he : a.Exchanges b out into list)
    {c x : ValueId} (hc : c ≠ b) :
    ((a.exchange b out into list function).standing x).block = some c ↔
      (a.standing x).block = some c := by
  show (if _ then _ else if _ then _ else _) = some c ↔ _
  by_cases hinto : .ofValue x ∈ into
  · -- what enters the block stood in no other
    obtain ⟨x', hx', hblock⟩ := he.enters _ hinto
    obtain rfl : x = x' := by simpa using hx'
    rw [if_pos hinto]
    constructor
    · intro hbc
      exact absurd (Option.some_inj.mp hbc).symm hc
    · intro hxc
      rcases hblock with hnone | hb
      · rw [hnone] at hxc
        cases hxc
      · rw [hb] at hxc
        exact absurd (Option.some_inj.mp hxc).symm hc
  · rw [if_neg hinto]
    by_cases hout : .ofValue x ∈ out
    · have hb := h.mem_instructions.mp (he.leaves _ hout)
      rw [if_pos hout, hb]
      constructor
      · intro hnone
        cases hnone
      · intro hbc
        exact absurd (Option.some_inj.mp hbc).symm hc
    · rw [if_neg hout]

/-- What is no instruction belongs to the function that it belonged to. -/
theorem Exchanges.home_eq_some (he : a.Exchanges b out into list) {v : ValueId} {form : Form}
    (hform : form ≠ .instruction) :
    ((a.exchange b out into list function).standing v).home = some (form, f) ↔
      (a.standing v).home = some (form, f) := by
  show (if _ then _ else if _ then _ else _) = some (form, f) ↔ _
  have hmoved : .ofValue v ∈ out ++ into → (a.standing v).home ≠ some (form, f) :=
    fun hv hhome => hform (he.form v hv form f hhome)
  by_cases hinto : .ofValue v ∈ into
  · rw [if_pos hinto]
    constructor
    · intro hhome
      obtain ⟨_, _, heq⟩ := Option.map_eq_some_iff.mp hhome
      exact absurd (congrArg Prod.fst heq).symm hform
    · exact fun hhome => absurd hhome (hmoved (List.mem_append_right _ hinto))
  · rw [if_neg hinto]
    by_cases hout : .ofValue v ∈ out
    · rw [if_pos hout]
      constructor
      · intro hnone
        cases hnone
      · exact fun hhome => absurd hhome (hmoved (List.mem_append_left _ hout))
    · rw [if_neg hout]

/-- An exchange of a list in which all that leaves is unlinked and all that enters is linked leaves
lists and links together. -/
theorem Contained.exchange (h : a.Contained) (he : a.Exchanges b out into list) :
    (a.exchange b out into list function).Contained where
  instruction c slot := by
    by_cases hc : c = b
    · subst hc
      show slot ∈ (if c = c then list else _) ↔ _
      rw [if_pos rfl, he.mem]
      constructor
      · rintro (hinto | ⟨hold, hout⟩)
        · obtain ⟨x, rfl, _⟩ := he.enters slot hinto
          exact ⟨x, rfl, if_pos hinto⟩
        · obtain ⟨x, rfl, hblock⟩ := (h.instruction c slot).mp hold
          refine ⟨x, rfl, ?_⟩
          show (if _ then _ else if _ then _ else _) = some c
          rw [if_neg hout, hblock, ite_self]
      · rintro ⟨x, rfl, hblock⟩
        by_cases hinto : Slot.ofValue x ∈ into
        · exact .inl hinto
        · replace hblock : (if _ then _ else if _ then _ else _) = some c := hblock
          rw [if_neg hinto] at hblock
          by_cases hout : Slot.ofValue x ∈ out
          · rw [if_pos hout] at hblock
            cases hblock
          · rw [if_neg hout] at hblock
            exact .inr ⟨h.mem_instructions.mpr hblock, hout⟩
    · show slot ∈ (if c = b then _ else (a.standing c).instructions) ↔ _
      rw [if_neg hc, h.instruction]
      exact exists_congr fun x => and_congr_right fun _ => (he.block_eq_some h hc).symm
  block g c := (h.block g c).trans (he.home_eq_some (by decide)).symm
  argument g slot := by
    refine (h.argument g slot).trans (exists_congr fun v => and_congr_right fun _ => ?_)
    exact (he.home_eq_some (by decide)).symm
  instructionsOnce c := by
    show (if c = b then list else _).Nodup
    split
    · exact he.nodup
    · exact h.instructionsOnce c
  blocksOnce := h.blocksOnce
  argumentsOnce := h.argumentsOnce

/-- What neither leaves nor enters the block has the function that it had. -/
theorem function?_exchange {v : ValueId} (hinto : .ofValue v ∉ into) (hout : .ofValue v ∉ out) :
    (a.exchange b out into list function).function? v = a.function? v := by
  show Option.map _ (if _ then _ else if _ then _ else _) = _
  rw [if_neg hinto, if_neg hout]
  rfl

/-- If what enters is told the function of the block, all instructions know their functions. -/
theorem Informed.exchange (h : a.Informed) (hc : a.Contained) (he : a.Exchanges b out into list)
    (hblock : .ofValue b ∉ out ++ into) (hfunction : function = a.function? b) :
    (a.exchange b out into list function).Informed := by
  intro c x hx
  have hb : (a.exchange b out into list function).function? b = a.function? b :=
    function?_exchange (fun h => hblock (List.mem_append_right _ h))
      fun h => hblock (List.mem_append_left _ h)
  by_cases hcb : c = b
  · subst hcb
    rw [hb]
    by_cases hinto : Slot.ofValue x ∈ into
    · show Option.map _ (if _ then _ else _) = _
      rw [if_pos hinto, hfunction, Option.map_map]
      cases a.function? c <;> rfl
    · -- what has not entered the block stood in it and has not left it
      replace hx : Slot.ofValue x ∈ (if c = c then list else _) := hx
      rw [if_pos rfl, he.mem] at hx
      obtain ⟨hold, hout⟩ := hx.resolve_left hinto
      rw [function?_exchange hinto hout]
      exact h c x hold
  · replace hx : Slot.ofValue x ∈ (if c = b then list else (a.standing c).instructions) := hx
    rw [if_neg hcb] at hx
    have hxc := hc.mem_instructions.mp hx
    have hinto : Slot.ofValue x ∉ into := by
      intro hinto
      obtain ⟨x', hx', hblock⟩ := he.enters _ hinto
      obtain rfl : x = x' := by simpa using hx'
      rcases hblock with hnone | hxb
      · rw [hnone] at hxc
        cases hxc
      · rw [hxb] at hxc
        exact hcb (Option.some_inj.mp hxc).symm
    have hout : Slot.ofValue x ∉ out := by
      intro hout
      rw [hc.mem_instructions.mp (he.leaves _ hout)] at hxc
      exact hcb (Option.some_inj.mp hxc).symm
    -- a block with an instruction in it is none of those that leave or enter
    have hmoved : Slot.ofValue c ∉ out ++ into := by
      intro hmoved
      rw [he.instructions c hmoved] at hx
      cases hx
    rw [function?_exchange hinto hout, function?_exchange
      (fun h => hmoved (List.mem_append_right _ h)) fun h => hmoved (List.mem_append_left _ h)]
    exact h c x hx

end Exchange

/-! ## Exchanging the arguments of a function -/

/-- The arrangement where some arguments have left a function and others have entered it, which has
the given list then. -/
def enlist (a : Arrangement) (f : FunctionId) (out into list : List Slot) : Arrangement where
  standing v :=
    { a.standing v with
      home :=
        if .ofValue v ∈ into then some (.argument, f)
        else if .ofValue v ∈ out then none else (a.standing v).home }
  roster g := if g = f then { a.roster g with arguments := list } else a.roster g

section Enlist

variable {arguments : List Slot}

/-- What is no argument of the function belongs to the function that it belonged to. -/
theorem home_enlist (h : a.Contained)
    (harguments : ∀ slot ∈ arguments, ∃ v, slot = .ofValue v ∧
      ((a.standing v).home = none ∨ (a.standing v).home = some (.argument, f)))
    {v : ValueId} {form : Form} {g : FunctionId} (hother : (form, g) ≠ (.argument, f)) :
    ((a.enlist f (a.roster f).arguments arguments arguments).standing v).home = some (form, g) ↔
      (a.standing v).home = some (form, g) := by
  show (if _ then _ else if _ then _ else _) = some (form, g) ↔ _
  by_cases hnew : .ofValue v ∈ arguments
  · obtain ⟨v', hv', hhome⟩ := harguments _ hnew
    obtain rfl : v = v' := by simpa using hv'
    rw [if_pos hnew]
    constructor
    · intro heq
      exact absurd (Option.some_inj.mp heq).symm hother
    · intro heq
      rcases hhome with hnone | hhome
      · rw [hnone] at heq
        cases heq
      · rw [hhome] at heq
        exact absurd (Option.some_inj.mp heq).symm hother
  · rw [if_neg hnew]
    by_cases hold : .ofValue v ∈ (a.roster f).arguments
    · obtain ⟨v', hv', hhome⟩ := (h.argument f _).mp hold
      obtain rfl : v = v' := by simpa using hv'
      rw [if_pos hold, hhome]
      constructor
      · intro hnone
        cases hnone
      · intro heq
        exact absurd (Option.some_inj.mp heq).symm hother
    · rw [if_neg hold]

/-- A function may exchange its arguments for some that are in no function, or in it already. -/
theorem Contained.enlist (h : a.Contained)
    (harguments : ∀ slot ∈ arguments, ∃ v, slot = .ofValue v ∧
      ((a.standing v).home = none ∨ (a.standing v).home = some (.argument, f)))
    (hnodup : arguments.Nodup) :
    (a.enlist f (a.roster f).arguments arguments arguments).Contained where
  instruction := h.instruction
  block g b := by
    -- arguments alone move, so that the blocks of a function are what they were
    have hblocks : ((a.enlist f (a.roster f).arguments arguments arguments).roster g).blocks =
        (a.roster g).blocks := by
      show (if g = f then { a.roster g with arguments } else a.roster g).blocks = _
      split
      · rfl
      · rfl
    rw [hblocks, h.block]
    exact (home_enlist h harguments (by simp)).symm
  argument g slot := by
    show slot ∈ (if g = f then { a.roster g with arguments } else a.roster g).arguments ↔ _
    by_cases hg : g = f
    · subst hg
      rw [if_pos rfl]
      constructor
      · intro hslot
        obtain ⟨v, rfl, _⟩ := harguments slot hslot
        exact ⟨v, rfl, if_pos hslot⟩
      · rintro ⟨v, rfl, hhome⟩
        by_cases hnew : Slot.ofValue v ∈ arguments
        · exact hnew
        · -- an argument that is not among the new ones has left the function
          replace hhome : (if _ then _ else if _ then _ else _) = some (Form.argument, g) := hhome
          rw [if_neg hnew] at hhome
          by_cases hold : Slot.ofValue v ∈ (a.roster g).arguments
          · rw [if_pos hold] at hhome
            cases hhome
          · rw [if_neg hold] at hhome
            exact absurd ((h.argument g _).mpr ⟨v, rfl, hhome⟩) hold
    · rw [if_neg hg, h.argument]
      refine exists_congr fun v => and_congr_right fun _ => ?_
      exact (home_enlist h harguments fun heq => hg (Prod.mk.inj heq).2).symm
  instructionsOnce := h.instructionsOnce
  blocksOnce g := by
    show (if g = f then { a.roster g with arguments } else a.roster g).blocks.Nodup
    split
    · exact h.blocksOnce g
    · exact h.blocksOnce g
  argumentsOnce g := by
    show (if g = f then { a.roster g with arguments } else a.roster g).arguments.Nodup
    split
    · exact hnodup
    · exact h.argumentsOnce g

/-- Arguments stand in no block, and nothing stands in them. -/
theorem Informed.enlist (h : a.Informed) {out into list : List Slot}
    (hmoved : ∀ v, .ofValue v ∈ out ++ into →
      (a.standing v).instructions = [] ∧ ∀ b, .ofValue v ∉ (a.standing b).instructions) :
    (a.enlist f out into list).Informed := by
  have hstays : ∀ v, .ofValue v ∉ out ++ into →
      (a.enlist f out into list).function? v = a.function? v := by
    intro v hv
    show Option.map _ (if _ then _ else if _ then _ else _) = _
    rw [if_neg fun h => hv (List.mem_append_right _ h),
      if_neg fun h => hv (List.mem_append_left _ h)]
    rfl
  intro b x hx
  -- nothing stands in an argument, so a block that has an instruction does not move
  have hb : Slot.ofValue b ∉ out ++ into := by
    intro hb
    replace hx : Slot.ofValue x ∈ (a.standing b).instructions := hx
    rw [(hmoved b hb).1] at hx
    cases hx
  rw [hstays x fun hmem => (hmoved x hmem).2 b hx, hstays b hb]
  exact h b x hx

end Enlist

/-! ## Blocks entering a function -/

/-- The arrangement where a block has entered a function. -/
def settle (a : Arrangement) (f : FunctionId) (b : ValueId) : Arrangement where
  standing v :=
    { a.standing v with home := if v = b then some (.block, f) else (a.standing v).home }
  roster g := if g = f then { a.roster g with blocks := (a.roster g).blocks ++ [b] } else a.roster g

/-- A block without a function may settle in one. -/
theorem Contained.settle (h : a.Contained) (hb : (a.standing b).home = none) :
    (a.settle f b).Contained where
  instruction := h.instruction
  block g c := by
    show c ∈ (if g = f then { a.roster g with blocks := (a.roster g).blocks ++ [b] }
      else a.roster g).blocks ↔ (if c = b then some (Form.block, f) else _) = _
    by_cases hg : g = f
    · subst hg
      rw [if_pos rfl, List.mem_append, List.mem_singleton]
      by_cases hc : c = b
      · simp [hc]
      · rw [if_neg hc, h.block]
        simp [hc]
    · rw [if_neg hg, h.block]
      by_cases hc : c = b
      · subst hc
        rw [if_pos rfl, hb]
        simp [Ne.symm hg]
      · rw [if_neg hc]
  argument g slot := by
    -- a block is no argument, so that those of a function are what they were
    have harguments : ((a.settle f b).roster g).arguments = (a.roster g).arguments := by
      show (if g = f then _ else a.roster g).arguments = _
      split
      · rfl
      · rfl
    rw [harguments, h.argument]
    refine exists_congr fun v => and_congr_right fun _ => ?_
    show _ ↔ (if v = b then some (Form.block, f) else _) = _
    by_cases hv : v = b
    · subst hv
      rw [if_pos rfl, hb]
      simp
    · rw [if_neg hv]
  instructionsOnce := h.instructionsOnce
  blocksOnce g := by
    show (if g = f then { a.roster g with blocks := (a.roster g).blocks ++ [b] }
      else a.roster g).blocks.Nodup
    split
    · -- the block was in no function, so that it was not on the list
      refine List.nodup_append.mpr ⟨h.blocksOnce g, List.nodup_singleton b, ?_⟩
      rintro c hc _ hmem rfl
      rw [List.mem_singleton.mp hmem, h.block, hb] at hc
      cases hc
    · exact h.blocksOnce g
  argumentsOnce g := by
    show (if g = f then _ else a.roster g).arguments.Nodup
    split
    · exact h.argumentsOnce g
    · exact h.argumentsOnce g

/-- A block in which nothing stands may enter a function without telling anyone. -/
theorem Informed.settle (h : a.Informed) (hempty : (a.standing b).instructions = [])
    (hnowhere : ∀ c, .ofValue b ∉ (a.standing c).instructions) : (a.settle f b).Informed := by
  have hstays : ∀ v, v ≠ b → (a.settle f b).function? v = a.function? v := by
    intro v hv
    show Option.map _ (if v = b then _ else _) = _
    rw [if_neg hv]
    rfl
  intro c x hx
  replace hx : Slot.ofValue x ∈ (a.standing c).instructions := hx
  have hxb : x ≠ b := by
    rintro rfl
    exact hnowhere c hx
  have hcb : c ≠ b := by
    rintro rfl
    rw [hempty] at hx
    cases hx
  rw [hstays x hxb, hstays c hcb]
  exact h c x hx

end SsaDebugInfo.Arrangement
