import SsaDebugInfo.Proofs.Ir.Links
import SsaDebugInfo.Proofs.Ir.Rules

/-!
# Placing keeps links and lists in agreement

A store is tidy if it is sound and its arrangement contained, and informed where that is asked for.
A placement is orderly (`Placement.Orderly`) if what it places is nowhere else, and stands next to
what is there; orderly placements keep a store tidy, unless a name turns out not to be registered.

- `Store.Tidy.exchange`, `Store.Tidy.settle`, `Store.Tidy.enlist`: instructions, blocks and
  arguments that get another place.
- `Store.Tidy.collect`: what a collection leaves is tidy.
- `orderly_upholds`: all this, as what `Rule.orderly` upholds.
-/

namespace SsaDebugInfo

open Act Store Arrangement

namespace Store

/-- A sound store in which links and lists agree, and in which instructions have the function of
their block if that is asked for. -/
structure Tidy (informed : Bool) (s : Store) : Prop where
  sound : s.Sound
  contained : s.arrangement.Contained
  informed : informed = true → s.arrangement.Informed

/-- Links and lists agree: what stands in a list has a link that leads to where the list is, and
what has such a link stands in the list, once. -/
structure Contained (s : Store) : Prop where
  instruction : ∀ b slot, slot ∈ s.instructionsOf b ↔
    ∃ x, slot = .ofValue x ∧ s.blockOf? x = some b
  block : ∀ f b, b ∈ (s.roster f).blocks ↔ s.formOf? b = some .block ∧ s.functionOf? b = some f
  argument : ∀ f slot, slot ∈ (s.roster f).arguments ↔
    ∃ v, slot = .ofValue v ∧ s.formOf? v = some .argument ∧ s.functionOf? v = some f
  instructionsOnce : ∀ b, (s.instructionsOf b).Nodup
  blocksOnce : ∀ f, (s.roster f).blocks.Nodup
  argumentsOnce : ∀ f, (s.roster f).arguments.Nodup

variable {informed : Bool} {s t : Store}

/-- An instruction is in the list of a block if and only if it is linked to the block. -/
theorem Contained.mem_instructionsOf (h : s.Contained) {b x : ValueId} :
    .ofValue x ∈ s.instructionsOf b ↔ s.blockOf? x = some b := by
  rw [h.instruction]
  constructor
  · rintro ⟨x', hx, hblock⟩
    obtain rfl : x = x' := by simpa using hx
    exact hblock
  · exact fun hblock => ⟨x, rfl, hblock⟩

/-- In a tidy store lists and links agree. -/
theorem Tidy.store_contained (hs : s.Tidy informed) : s.Contained where
  instruction b slot := by
    have h := hs.contained.instruction b slot
    simp only [arrangement, instructions_standing, block_standing] at h
    exact h
  block f b := (hs.contained.block f b).trans home_eq_some
  argument f slot := by
    refine (hs.contained.argument f slot).trans (exists_congr fun v => and_congr_right fun _ => ?_)
    exact home_eq_some
  instructionsOnce b := instructions_standing b ▸ hs.contained.instructionsOnce b
  blocksOnce := hs.contained.blocksOnce
  argumentsOnce := hs.contained.argumentsOnce

/-- What leaves the arrangement as it is leaves a sound store tidy. -/
theorem Tidy.of_arrangement (hs : s.Tidy informed) (ht : t.Sound)
    (h : t.arrangement = s.arrangement) : t.Tidy informed where
  sound := ht
  contained := h.symm ▸ hs.contained
  informed hinformed := h.symm ▸ hs.informed hinformed

/-- What stands in a block is an instruction. -/
theorem Tidy.instruction (hs : s.Tidy informed) {b : ValueId} {slot : Slot}
    (hslot : slot ∈ s.instructionsOf b) :
    ∃ x, slot = .ofValue x ∧ s.blockOf? x = some b ∧ s.formOf? x = some .instruction := by
  rw [← instructions_standing] at hslot
  obtain ⟨x, rfl, hblock⟩ := (hs.contained.instruction b slot).mp hslot
  have hblock : s.blockOf? x = some b := (block_standing x).symm.trans hblock
  exact ⟨x, rfl, hblock, formOf?_of_blockOf? hblock⟩

/-- An instruction stands in the list of its block, which is a block. -/
theorem Tidy.of_blockOf? (hs : s.Tidy informed) {x b : ValueId} (h : s.blockOf? x = some b) :
    .ofValue x ∈ s.instructionsOf b ∧ s.formOf? b = some .block := by
  have hmem : Slot.ofValue x ∈ s.instructionsOf b := by
    rw [← instructions_standing]
    exact hs.contained.mem_instructions.mpr ((block_standing x).trans h)
  exact ⟨hmem, formOf?_of_mem_instructionsOf hmem⟩

/-- What a function lists as an argument is one. -/
theorem Tidy.argument (hs : s.Tidy informed) {f : FunctionId} {slot : Slot}
    (hslot : slot ∈ (s.roster f).arguments) :
    ∃ v, slot = .ofValue v ∧ s.formOf? v = some .argument := by
  obtain ⟨v, rfl, hhome⟩ := (hs.contained.argument f slot).mp hslot
  exact ⟨v, rfl, (home_eq_some.mp hhome).1⟩

/-- Only instructions stand in blocks. -/
theorem Tidy.not_mem_of_form (hs : s.Tidy informed) {v : ValueId} {form : Form}
    (hv : s.formOf? v = some form) (hform : form ≠ .instruction) (b : ValueId) :
    .ofValue v ∉ s.instructionsOf b := by
  intro hmem
  obtain ⟨x, hx, _, hxform⟩ := hs.instruction hmem
  obtain rfl : v = x := by simpa using hx
  rw [hv] at hxform
  exact hform (Option.some_inj.mp hxform)

end Store

/-! ## Orderly placements -/

/-- A placement puts only things somewhere that are nowhere else, and each of them once; a block
that enters a function has to be empty if instructions are to have the function of their block. -/
def Placement.Orderly (informed : Bool) (s : Store) : Placement → Prop
  | setArguments f arguments =>
    arguments.Nodup ∧ ∀ slot ∈ arguments, ∃ v ∈ slot.value?,
      s.formOf? v = some .argument ∧ (s.functionOf? v = none ∨ s.functionOf? v = some f)
  | addBlock _ b =>
    s.formOf? b = some .block ∧ s.functionOf? b = none ∧
      (informed = true → s.instructionsOf b = [])
  | append b x => s.formOf? b = some .block ∧ s.formOf? x = some .instruction ∧ s.blockOf? x = none
  | insertBefore b x anchor | insertAfter b x anchor =>
    s.formOf? x = some .instruction ∧ s.blockOf? x = none ∧ anchor ∈ s.instructionsOf b
  | remove _ _ => True
  | setInstructions b insns =>
    s.formOf? b = some .block ∧ insns.Nodup ∧ ∀ slot ∈ insns, ∃ x ∈ slot.value?,
      s.formOf? x = some .instruction ∧ (s.blockOf? x = none ∨ s.blockOf? x = some b)

instance Placement.decidableOrderly (informed : Bool) (s : Store) :
    (placement : Placement) → Decidable (placement.Orderly informed s)
  | setArguments .. => inferInstanceAs (Decidable (_ ∧ _))
  | addBlock .. => inferInstanceAs (Decidable (_ ∧ _))
  | append .. => inferInstanceAs (Decidable (_ ∧ _))
  | insertBefore .. => inferInstanceAs (Decidable (_ ∧ _))
  | insertAfter .. => inferInstanceAs (Decidable (_ ∧ _))
  | remove .. => inferInstanceAs (Decidable True)
  | setInstructions .. => inferInstanceAs (Decidable (_ ∧ _))

/-- What is placed is nowhere else, and a new block or function takes only what is nowhere yet. Then
all goes well unless a name turns out not to be registered. -/
def Rule.orderly (informed : Bool) : Rule where
  place s placement := decide (placement.Orderly informed s)
  move _ _ _ := true
  arguments s arguments := decide (arguments.Nodup ∧ ∀ slot ∈ arguments, ∃ v ∈ slot.value?,
    s.formOf? v = some .argument ∧ s.functionOf? v = none)
  instructions s insns := decide (insns.Nodup ∧ ∀ slot ∈ insns, ∃ x ∈ slot.value?,
    s.formOf? x = some .instruction ∧ s.blockOf? x = none)
  rename _ _ := true
  lost
    | .nameNotRegistered => true
    | _ => false

/-- How an action on a tidy store goes wrong: in a name that is not registered, or leaving the store
tidy. -/
abbrev orTidy (informed : Bool) : Fault → Store → Prop :=
  (Rule.orderly informed).orElse (Tidy informed)

/-- A fault for a name that is lost is excepted. -/
theorem orTidy_of_nameLost {informed : Bool} {f : Fault} {t : Store} (h : nameLost f t) :
    orTidy informed f t := by
  obtain rfl : f = .nameNotRegistered := h
  intro hf
  cases hf

variable {informed : Bool} {s t : Store}

/-! ### Instructions in blocks -/

section Blocks

variable {b x : ValueId}

/-- A block is none of the instructions that leave or enter it. -/
theorem Store.not_mem_of_block (hb : s.formOf? b = some .block) {l : List Slot}
    (hl : ∀ slot ∈ l, ∃ x, slot = .ofValue x ∧ s.formOf? x = some .instruction) :
    .ofValue b ∉ l := by
  intro hmem
  obtain ⟨x, hx, hform⟩ := hl _ hmem
  obtain rfl : b = x := by simpa using hx
  rw [hb] at hform
  cases hform

/-- Instructions may leave a block, and others enter it that are in no other. -/
theorem Store.Tidy.exchange (hs : s.Tidy informed) (out into : List Slot) {list : List Slot}
    {g : Option FunctionId} (hout : ∀ slot ∈ out, slot ∈ s.instructionsOf b)
    (hinto : ∀ slot ∈ into, ∃ x, slot = .ofValue x ∧ s.formOf? x = some .instruction ∧
      (s.blockOf? x = none ∨ s.blockOf? x = some b))
    (hmem : ∀ slot, slot ∈ list ↔ slot ∈ into ∨ slot ∈ s.instructionsOf b ∧ slot ∉ out)
    (hnodup : list.Nodup) (hb : s.formOf? b = some .block)
    (hg : into = [] ∨ g = s.functionOf? b) (ht : t.Sound)
    (h : s.Rearranges (s.arrangement.exchange b out into list g) t) : t.Tidy informed := by
  have hinstructions : ∀ slot ∈ out ++ into,
      ∃ x, slot = .ofValue x ∧ s.formOf? x = some .instruction := by
    intro slot hslot
    rcases List.mem_append.mp hslot with hslot | hslot
    · obtain ⟨x, hx, _, hform⟩ := hs.instruction (hout slot hslot)
      exact ⟨x, hx, hform⟩
    · obtain ⟨x, hx, hform, _⟩ := hinto slot hslot
      exact ⟨x, hx, hform⟩
  have hform : ∀ x, Slot.ofValue x ∈ out ++ into → s.formOf? x = some .instruction := by
    intro x hx
    obtain ⟨x', hx', hform⟩ := hinstructions _ hx
    obtain rfl : x = x' := by simpa using hx'
    exact hform
  have hexchanges : s.arrangement.Exchanges b out into list := {
    leaves := fun slot hslot => (instructions_standing b).symm ▸ hout slot hslot
    enters := fun slot hslot => by
      obtain ⟨x, hx, _, hblock⟩ := hinto slot hslot
      exact ⟨x, hx, by rwa [show (s.arrangement.standing x).block = _ from block_standing x]⟩
    instructions := fun x hx => by
      show (s.standing x).instructions = []
      rw [instructions_standing]
      refine instructionsOf_eq_nil fun hblock => ?_
      rw [hform x hx] at hblock
      cases hblock
    form := fun x hx form f hhome => by
      have hx := (hform x hx).symm.trans (home_eq_some.mp hhome).1
      exact (Option.some_inj.mp hx).symm
    mem := fun slot => (hmem slot).trans (by
      rw [show (s.arrangement.standing b).instructions = _ from instructions_standing b])
    nodup := hnodup }
  -- where nothing enters, the function that is given to those who enter plays no part
  have hfunction : ∀ g', (into = [] ∨ g = g') →
      s.arrangement.exchange b out into list g = s.arrangement.exchange b out into list g' := by
    rintro g' (rfl | rfl)
    · simp [Arrangement.exchange]
    · rfl
  refine ⟨ht, ?_, fun hinformed => ?_⟩
  · rw [h.arrangement]
    exact hs.contained.exchange hexchanges
  · rw [h.arrangement, hfunction _ hg, ← function?_arrangement]
    exact (hs.informed hinformed).exchange hs.contained hexchanges
      (not_mem_of_block hb hinstructions) rfl

/-- A detached instruction may enter a block. -/
theorem Store.Tidy.enters (hs : s.Tidy informed) (hb : s.formOf? b = some .block)
    (hx : s.formOf? x = some .instruction) (hdetached : s.blockOf? x = none) (ht : t.Sound)
    (h : s.Enters b x t) : t.Tidy informed := by
  obtain ⟨list, hlist, h⟩ := h
  have hnot : Slot.ofValue x ∉ s.instructionsOf b := by
    intro hmem
    obtain ⟨x', hx', hblock, _⟩ := hs.instruction hmem
    obtain rfl : x = x' := by simpa using hx'
    rw [hdetached] at hblock
    cases hblock
  refine hs.exchange [] [.ofValue x] (fun _ h => nomatch h) ?_ ?_ ?_ hb
    (.inr rfl) ht h
  · exact List.forall_mem_singleton.mpr ⟨x, rfl, hx, .inl hdetached⟩
  · intro slot
    rw [hlist.mem_iff]
    simp
  · have honce := hs.contained.instructionsOnce b
    rw [show (s.arrangement.standing b).instructions = _ from instructions_standing b] at honce
    exact hlist.nodup_iff.mpr (List.nodup_cons.mpr ⟨hnot, honce⟩)

/-- An instruction may be taken out of its block. -/
theorem Store.Tidy.ends_removeFrom (hs : s.Tidy informed) (slot : Slot) :
    (removeFrom b slot).Ends s (fun _ t => t.Tidy informed ∧ s.Rearranges (s.arrangement.exchange b
      [slot] [] ((s.instructionsOf b).erase slot) none) t) (orTidy informed) := by
  have hlist : ∀ slot ∈ s.instructionsOf b,
      ∃ x, slot = .ofValue x ∧ s.formOf? x = some .instruction := by
    intro slot hslot
    obtain ⟨x, hx, _, hform⟩ := hs.instruction hslot
    exact ⟨x, hx, hform⟩
  have hkeeps : (SsaDebugInfo.removeFrom b slot).Keeps (.edits {}) s fun _ _ => True :=
    keeps_place (.remove b slot) hs.sound fun _ h => nomatch h
  refine ((removeFrom_ends hs.sound.closed hlist none).and hkeeps.ends).mono
    (fun _ t ⟨⟨hslot, ht⟩, hedited⟩ => ?_) fun f t hf => ?_
  · have honce := hs.contained.instructionsOnce b
    rw [show (s.arrangement.standing b).instructions = _ from instructions_standing b] at honce
    refine ⟨hs.exchange [slot] [] (List.forall_mem_singleton.mpr hslot) (fun _ h => nomatch h) ?_
      (honce.erase _) (formOf?_of_mem_instructionsOf hslot) (.inl rfl)
      (hedited.1.sound hs.sound) ht, ht⟩
    intro other
    rw [honce.mem_erase_iff]
    simp [and_comm]
  · rcases hf.1 with hlost | rfl
    · exact orTidy_of_nameLost hlost
    · exact fun _ => hs

end Blocks

/-! ### Placements -/

theorem Store.home_eq_none {v : ValueId} (h : s.functionOf? v = none) :
    (s.standing v).home = none := by
  rw [home_standing, h]
  cases s.formOf? v <;> rfl

/-- A block stands in no block, and what stands in it is known to be no block. -/
theorem Store.Tidy.settle (hs : s.Tidy informed) {f : FunctionId} {b : ValueId}
    (hb : s.formOf? b = some .block) (hfree : s.functionOf? b = none)
    (hempty : informed = true → s.instructionsOf b = []) (ht : t.Sound)
    (h : s.Rearranges (s.arrangement.settle f b) t) : t.Tidy informed := by
  refine ⟨ht, ?_, fun hinformed => ?_⟩
  · rw [h.arrangement]
    exact hs.contained.settle (home_eq_none hfree)
  · rw [h.arrangement]
    refine (hs.informed hinformed).settle ((instructions_standing b).trans (hempty hinformed))
      fun c => ?_
    rw [show (s.arrangement.standing c).instructions = _ from instructions_standing c]
    exact hs.not_mem_of_form hb (by decide) c

/-- Arguments that are in no function may become those of one. -/
theorem Store.Tidy.enlist (hs : s.Tidy informed) {f : FunctionId} {arguments : List Slot}
    (hnodup : arguments.Nodup)
    (harguments : ∀ slot ∈ arguments, ∃ v ∈ slot.value?,
      s.formOf? v = some .argument ∧ (s.functionOf? v = none ∨ s.functionOf? v = some f))
    (ht : t.Sound)
    (h : s.Rearranges (s.arrangement.enlist f (s.roster f).arguments arguments arguments) t) :
    t.Tidy informed := by
  refine ⟨ht, ?_, fun hinformed => ?_⟩
  · rw [h.arrangement]
    refine hs.contained.enlist (fun slot hslot => ?_) hnodup
    obtain ⟨v, hv, hform, hfunction⟩ := harguments slot hslot
    refine ⟨v, Slot.value?_eq_some_iff.mp hv, ?_⟩
    rcases hfunction with hnone | hsome
    · exact .inl (home_eq_none hnone)
    · exact .inr (home_eq_some.mpr ⟨hform, hsome⟩)
  · rw [h.arrangement]
    refine (hs.informed hinformed).enlist fun v hv => ?_
    have hform : s.formOf? v = some .argument := by
      rcases List.mem_append.mp hv with hv | hv
      · obtain ⟨v', hv', hform⟩ := hs.argument hv
        obtain rfl : v = v' := by simpa using hv'
        exact hform
      · obtain ⟨v', hv', hform, _⟩ := harguments _ hv
        obtain rfl : v = v' := by simpa using hv'
        exact hform
    constructor
    · refine (instructions_standing v).trans (instructionsOf_eq_nil fun hblock => ?_)
      rw [hform] at hblock
      cases hblock
    · intro b
      rw [show (s.arrangement.standing b).instructions = _ from instructions_standing b]
      exact hs.not_mem_of_form hform (by decide) b

/-- An orderly placement keeps a store tidy. -/
theorem Store.Tidy.ends_place (hs : s.Tidy informed) (placement : Placement)
    (hneeds : ∀ slot ∈ placement.needs, s.HasIn slot) (h : placement.Orderly informed s) :
    placement.act.Ends s (fun _ t => t.Tidy informed) (orTidy informed) := by
  -- a placement that ends as it should leaves a sound store
  have hsound : ∀ {answers : Store → Prop}, (∀ t, t.Sound → answers t → t.Tidy informed) →
      placement.act.Ends s (fun _ t => answers t) nameLost →
      placement.act.Ends s (fun _ t => t.Tidy informed) (orTidy informed) := by
    intro answers htidy hends
    have hkeeps : placement.act.Keeps (.edits {}) s fun _ _ => True :=
      keeps_place placement hs.sound hneeds
    refine (hends.and hkeeps.ends).mono (fun _ t ht => ?_) fun f t hf => orTidy_of_nameLost hf.1
    exact htidy t (ht.2.1.sound hs.sound) ht.1
  have hclosed := hs.sound.closed
  cases placement with
  | setArguments f arguments =>
    obtain ⟨hnodup, harguments⟩ := h
    refine hsound (fun t ht => hs.enlist hnodup harguments ht)
      (setArguments_ends hclosed (hasIn_some.mp (List.forall_mem_cons.mp hneeds).1)
        fun slot hslot => ?_)
    rcases List.mem_append.mp hslot with hslot | hslot
    · exact hs.argument hslot
    · obtain ⟨v, hv, hform, _⟩ := harguments slot hslot
      exact ⟨v, Slot.value?_eq_some_iff.mp hv, hform⟩
  | addBlock f b =>
    obtain ⟨hb, hfree, hempty⟩ := h
    exact hsound (fun t ht => hs.settle hb hfree hempty ht)
      (addBlock_ends hclosed (hasIn_some.mp (List.forall_mem_cons.mp hneeds).1) hb)
  | append b x =>
    obtain ⟨hb, hx, hdetached⟩ := h
    exact hsound (fun t ht => hs.enters hb hx hdetached ht) (appendTo_ends hclosed hb hx)
  | insertBefore b x anchor =>
    obtain ⟨hx, hdetached, hanchor⟩ := h
    have hb := formOf?_of_mem_instructionsOf hanchor
    exact hsound (fun t ht => hs.enters hb hx hdetached ht)
      (insertBefore_ends hclosed hb hx hanchor)
  | insertAfter b x anchor =>
    obtain ⟨hx, hdetached, hanchor⟩ := h
    have hb := formOf?_of_mem_instructionsOf hanchor
    exact hsound (fun t ht => hs.enters hb hx hdetached ht) (insertAfter_ends hclosed hb hx hanchor)
  | remove b slot => exact (hs.ends_removeFrom slot).mono (fun _ t ht => ht.1) fun _ _ hf => hf
  | setInstructions b insns =>
    obtain ⟨hb, hnodup, hinsns⟩ := h
    have hforms : ∀ slot ∈ s.instructionsOf b ++ insns,
        ∃ x, slot = .ofValue x ∧ s.formOf? x = some .instruction := by
      intro slot hslot
      rcases List.mem_append.mp hslot with hslot | hslot
      · obtain ⟨x, hx, _, hform⟩ := hs.instruction hslot
        exact ⟨x, hx, hform⟩
      · obtain ⟨x, hx, hform, _⟩ := hinsns slot hslot
        exact ⟨x, Slot.value?_eq_some_iff.mp hx, hform⟩
    refine hsound (fun t ht h => ?_) (setInstructions_ends hclosed hb hforms)
    refine hs.exchange _ insns (fun _ hslot => hslot) (fun slot hslot => ?_) (fun slot => ?_) hnodup
      hb (.inr rfl) ht h
    · obtain ⟨x, hx, hform, hblock⟩ := hinsns slot hslot
      exact ⟨x, Slot.value?_eq_some_iff.mp hx, hform, hblock⟩
    · simp

/-! ### Collection -/

section Collection

variable {roots : List Slot}

/-- The instructions of a block that is reached are reached. -/
theorem Store.live_of_mem_instructionsOf {b x : ValueId} (hlive : s.Live roots (.value b))
    (h : .ofValue x ∈ s.instructionsOf b) : s.Live roots (.value x) := by
  obtain ⟨o, ho, _⟩ := formOf?_eq_block.mp (formOf?_of_mem_instructionsOf h)
  rw [instructionsOf, ho] at h
  exact (live_holdsOnly ho hlive).instructions _ h _ rfl

/-- The arguments and blocks of a function that is reached are reached. -/
theorem Store.live_of_roster {f : FunctionId} {v : ValueId} (hlive : s.Live roots (.function f))
    (h : .ofValue v ∈ (s.roster f).arguments ∨ v ∈ (s.roster f).blocks) :
    s.Live roots (.value v) := by
  cases ho : s.get? f with
  | none =>
    unfold roster at h
    rw [ho] at h
    rcases h with h | h
    · cases h
    · cases h
  | some o =>
    rw [roster_eq ho] at h
    have hholds : o.HoldsOnly fun slot => ∀ ref, slot = some ref → s.Live roots ref :=
      Function.holdsOnly_iff.mpr fun slot hslot ref href =>
        live_of_held f ho hlive (href ▸ hslot)
    rcases h with h | h
    · exact hholds.arguments _ h _ rfl
    · exact hholds.blocks v h _ rfl

/-- A block that stays keeps its instructions. -/
theorem Store.mem_instructions_collect {b : ValueId} {slot : Slot} :
    slot ∈ ((s.collect roots).standing b).instructions ↔
      s.Live roots (.value b) ∧ slot ∈ (s.standing b).instructions := by
  rw [standing_collect]
  split
  · next h => simp [h]
  · next h => simp [h]

/-- An instruction that stays keeps its block. -/
theorem Store.block_collect {x b : ValueId} :
    ((s.collect roots).standing x).block = some b ↔
      s.Live roots (.value x) ∧ (s.standing x).block = some b := by
  rw [standing_collect]
  split
  · next h => simp [h]
  · next h => simp [h]

/-- What stays keeps its function. -/
theorem Store.home_collect {v : ValueId} {home : Form × FunctionId} :
    ((s.collect roots).standing v).home = some home ↔
      s.Live roots (.value v) ∧ (s.standing v).home = some home := by
  rw [standing_collect]
  split
  · next h => simp [h]
  · next h => simp [h]

/-- A function that stays keeps its blocks. -/
theorem Store.mem_blocks_collect {f : FunctionId} {b : ValueId} :
    b ∈ ((s.collect roots).roster f).blocks ↔
      s.Live roots (.function f) ∧ b ∈ (s.roster f).blocks := by
  rw [roster_collect]
  split
  · next h => simp [h]
  · next h => simp [h]

/-- A function that stays keeps its arguments. -/
theorem Store.mem_arguments_collect {f : FunctionId} {slot : Slot} :
    slot ∈ ((s.collect roots).roster f).arguments ↔
      s.Live roots (.function f) ∧ slot ∈ (s.roster f).arguments := by
  rw [roster_collect]
  split
  · next h => simp [h]
  · next h => simp [h]

/-- An instruction keeps its block alive, and a block its instructions. -/
theorem Store.Tidy.live_iff_block (hs : s.Tidy informed) {x b : ValueId}
    (h : (s.standing x).block = some b) : s.Live roots (.value x) ↔ s.Live roots (.value b) := by
  refine ⟨fun hlive => live_of_blockOf? hlive ((block_standing x).symm.trans h), fun hlive => ?_⟩
  exact live_of_mem_instructionsOf hlive (hs.of_blockOf? ((block_standing x).symm.trans h)).1

/-- A block keeps its function alive, and a function its blocks. -/
theorem Store.Tidy.live_iff_function (hs : s.Tidy informed) {b : ValueId} {f : FunctionId}
    (h : (s.standing b).home = some (.block, f)) :
    s.Live roots (.value b) ↔ s.Live roots (.function f) :=
  ⟨fun hlive => live_of_functionOf? hlive (home_eq_some.mp h).2,
    fun hlive => live_of_roster hlive (.inr ((hs.contained.block f b).mpr h))⟩

/-- An argument keeps its function alive, and a function its arguments. -/
theorem Store.Tidy.live_iff_argument (hs : s.Tidy informed) {v : ValueId} {f : FunctionId}
    (h : (s.standing v).home = some (.argument, f)) :
    s.Live roots (.value v) ↔ s.Live roots (.function f) :=
  ⟨fun hlive => live_of_functionOf? hlive (home_eq_some.mp h).2,
    fun hlive => live_of_roster hlive (.inl ((hs.contained.argument f _).mpr ⟨v, rfl, h⟩))⟩

/-- Links and lists agree on what stays. -/
theorem Store.Tidy.contained_collect (hs : s.Tidy informed) (roots : List Slot) :
    (s.collect roots).arrangement.Contained where
  instruction b slot := by
    -- who stands in a block stays exactly if the block does
    refine mem_instructions_collect.trans ((and_congr_right fun _ =>
      hs.contained.instruction b slot).trans ?_)
    constructor
    · rintro ⟨hlive, x, rfl, hblock⟩
      exact ⟨x, rfl, block_collect.mpr ⟨(hs.live_iff_block hblock).mpr hlive, hblock⟩⟩
    · rintro ⟨x, rfl, hcollect⟩
      obtain ⟨hlive, hblock⟩ := block_collect.mp hcollect
      exact ⟨(hs.live_iff_block hblock).mp hlive, x, rfl, hblock⟩
  block f b := by
    refine mem_blocks_collect.trans ((and_congr_right fun _ => hs.contained.block f b).trans ?_)
    refine Iff.trans (and_congr_left fun hhome => ?_) home_collect.symm
    exact (hs.live_iff_function hhome).symm
  argument f slot := by
    refine mem_arguments_collect.trans ((and_congr_right fun _ =>
      hs.contained.argument f slot).trans ?_)
    constructor
    · rintro ⟨hlive, v, rfl, hhome⟩
      exact ⟨v, rfl, home_collect.mpr ⟨(hs.live_iff_argument hhome).mpr hlive, hhome⟩⟩
    · rintro ⟨v, rfl, hcollect⟩
      obtain ⟨hlive, hhome⟩ := home_collect.mp hcollect
      exact ⟨(hs.live_iff_argument hhome).mp hlive, v, rfl, hhome⟩
  instructionsOnce b := by
    show ((s.collect roots).standing b).instructions.Nodup
    rw [standing_collect]
    split
    · exact hs.contained.instructionsOnce b
    · exact List.nodup_nil
  blocksOnce f := by
    show ((s.collect roots).roster f).blocks.Nodup
    rw [roster_collect]
    split
    · exact hs.contained.blocksOnce f
    · exact List.nodup_nil
  argumentsOnce f := by
    show ((s.collect roots).roster f).arguments.Nodup
    rw [roster_collect]
    split
    · exact hs.contained.argumentsOnce f
    · exact List.nodup_nil

/-- Collection leaves a store tidy: what is linked both ways stays or goes together. -/
theorem Store.Tidy.collect (hs : s.Tidy informed) (roots : List Slot) :
    (s.collect roots).Tidy informed where
  sound := hs.sound.collect
  contained := hs.contained_collect roots
  informed hinformed := by
    intro b x hx
    obtain ⟨hlive, hmem⟩ := mem_instructions_collect.mp hx
    have hblock := hs.contained.mem_instructions.mp hmem
    show ((s.collect roots).standing x).home.map (·.2) =
      ((s.collect roots).standing b).home.map (·.2)
    rw [standing_collect, if_pos ((hs.live_iff_block hblock).mpr hlive), standing_collect,
      if_pos hlive]
    exact hs.informed hinformed b x hmem

end Collection

theorem tidy_initial : Store.initial.Tidy informed := by
  have hnone : Store.initial.arrangement = ⟨fun _ => {}, fun _ => {}⟩ := by
    refine Arrangement.ext (funext fun v => ?_) (funext fun f => ?_)
    · show Store.initial.standing v = {}
      rw [Store.standing, get?_initial v (by decide)]
      rfl
    · show Store.initial.roster f = {}
      rw [Store.roster, get?_initial f (by decide)]
      rfl
  exact ⟨sound_initial, hnone.symm ▸ contained_empty, fun _ => hnone.symm ▸ informed_empty⟩

/-- A name says nothing of where a value stands. -/
theorem Store.Tidy.rename (hs : s.Tidy informed) {v : ValueId} (name : String)
    (h : Unmoved (s.modify v (·.mapSite fun site => { site with name })) t) (ht : t.Sound) :
    t.Tidy informed :=
  hs.of_arrangement ht (h.arrangement.trans (rearranges_rename v name).arrangement)

/-- Where an instruction stands beside another, it may be put if it stands nowhere. -/
theorem Store.Tidy.orderly_beside (hs : s.Tidy informed) {x target b : ValueId}
    (hx : s.formOf? x = some .instruction) (hdetached : s.blockOf? x = none)
    (hblock : s.blockOf? target = some b) :
    (Rule.orderly informed).place s (.insertBefore b x (.ofValue target)) = true ∧
      (Rule.orderly informed).place s (.insertAfter b x (.ofValue target)) = true := by
  have hmem := (hs.of_blockOf? hblock).1
  exact ⟨decide_eq_true ⟨hx, hdetached, hmem⟩, decide_eq_true ⟨hx, hdetached, hmem⟩⟩

/-- Orderly placements keep links and lists in agreement. -/
theorem orderly_upholds : (Rule.orderly informed).Upholds (Tidy informed) where
  initial := tidy_initial
  sound hs := hs.sound
  unmoved hs hst ht := hs.of_arrangement ht hst.arrangement
  collect hs := hs.collect
  place hs p hneeds hallowed := hs.ends_place p hneeds (of_decide_eq_true hallowed)
  removeFrom hs b slot := (hs.ends_removeFrom slot).mono
    (fun _ t ht => ⟨ht.1, fun _ _ => ht.2.form, fun _ _ _ _ => rfl⟩) fun _ _ hf => hf
  rename hs _ name _ h ht := hs.rename name h ht
  move hs _ _ _ hx hdetached hblock _ := hs.orderly_beside hx hdetached hblock
  move_unmoved _ _ _ := rfl
  move_new _ _ _ := rfl
  arguments := by
    intro s t f l hst _ _ hallowed
    obtain ⟨hnodup, hall⟩ := of_decide_eq_true hallowed
    refine decide_eq_true ⟨hnodup, fun slot hslot => ?_⟩
    obtain ⟨v, hv, hform, hfunction⟩ := hall slot hslot
    exact ⟨v, hv, hst.formOf? hform, .inl ((hst.functionOf? v).trans hfunction)⟩
  instructions := by
    intro s t b l hst hb _ hallowed
    obtain ⟨hnodup, hall⟩ := of_decide_eq_true hallowed
    refine decide_eq_true ⟨hb, hnodup, fun slot hslot => ?_⟩
    obtain ⟨x, hx, hform, hblock⟩ := hall slot hslot
    exact ⟨x, hx, hst.formOf? hform, .inl ((hst.blockOf? x).trans hblock)⟩

end SsaDebugInfo
