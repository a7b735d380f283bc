import SsaDebugInfo.Proofs.Ir.Links

/-!
# What follows what in a block

An instruction that is put after another one stands right behind it, and nothing else in the block
changes its order. Where the lists of blocks agree with the links of instructions, an instruction
that is taken out of its block is in no list any more.

- `putAfter`: what becomes of a list; `infix_putAfter`: what stood right behind something else still
  does; `putAfter_filter_comm`: two things may be moved in either order.
- `eq_putAfter`: where something stands right behind something else, the rest says what the list is.
- `Store.ListsAgree`: an instruction is in the list of the block that it is linked to, and in no
  other.
- `insertAfter_puts`, `removeFromParent_withdraws`: what the actions do to links and lists.
-/

namespace SsaDebugInfo

section Lists

variable {α : Type} [BEq α] [LawfulBEq α] {a b x y : α} {l : List α}

/-- Puts an element right after the first occurrence of another one. -/
def putAfter (a x : α) (l : List α) : List α :=
  l.insertIdx (l.idxOf a + 1) x

/-- What is put behind the first occurrence of an entry stands right behind it. -/
theorem putAfter_append {before : List α} (h : a ∉ before) (after : List α) :
    putAfter a x (before ++ a :: after) = before ++ a :: x :: after := by
  unfold putAfter
  induction before with
  | nil => simp
  | cons b rest ih =>
    rw [List.mem_cons, not_or] at h
    rw [List.cons_append, List.idxOf_cons_ne _ (Ne.symm h.1), List.insertIdx_succ_cons, ih h.2]
    rfl

theorem putAfter_cons_self (a x : α) (l : List α) : putAfter a x (a :: l) = a :: x :: l := by
  have hnone : a ∉ ([] : List α) := List.not_mem_nil
  exact putAfter_append hnone l

theorem putAfter_cons_ne (x : α) (h : b ≠ a) (l : List α) :
    putAfter a x (b :: l) = b :: putAfter a x l := by
  rw [putAfter, List.idxOf_cons_ne _ h, List.insertIdx_succ_cons, putAfter]

/-- Nothing is put after what is not there. -/
theorem putAfter_of_not_mem (x : α) (h : a ∉ l) : putAfter a x l = l := by
  rw [putAfter, List.idxOf_eq_length h]
  exact List.insertIdx_of_length_lt (Nat.lt_succ_self _)

/-- Only what is in a list is gone through to find the place. -/
theorem exists_putAfter (x : α) (h : a ∈ l) : ∃ before after, l = before ++ a :: after ∧
    a ∉ before ∧ putAfter a x l = before ++ a :: x :: after := by
  obtain ⟨before, after, rfl, hbefore⟩ := List.eq_append_cons_of_mem h
  exact ⟨before, after, rfl, hbefore, putAfter_append hbefore after⟩

/-- What is put behind an entry is next to it. -/
theorem infix_putAfter_self (x : α) (h : a ∈ l) : [a, x] <:+: putAfter a x l := by
  obtain ⟨before, after, _, _, hput⟩ := exists_putAfter x h
  rw [hput]
  exact ⟨before, after, by simp⟩

/-- What stands right behind something else than what is put after still does. -/
theorem infix_putAfter (hadjacent : [a, x] <:+: l) (hb : b ∈ l) (hne : b ≠ a) :
    [a, x] <:+: putAfter b y l := by
  obtain ⟨before, after, rfl⟩ := hadjacent
  rw [List.append_assoc] at hb ⊢
  by_cases hbefore : b ∈ before
  · obtain ⟨before₁, before₂, rfl, hfirst⟩ := List.eq_append_cons_of_mem hbefore
    rw [List.append_assoc, List.cons_append, putAfter_append hfirst]
    exact ⟨before₁ ++ b :: y :: before₂, after, by simp⟩
  · by_cases hx : b = x
    · subst hx
      have hfirst : b ∉ before ++ [a] := by simp [hbefore, hne]
      have hput :
          putAfter b y (before ++ ([a, b] ++ after)) = before ++ [a] ++ b :: y :: after := by
        rw [← putAfter_append hfirst, List.append_assoc]
        rfl
      rw [hput]
      exact ⟨before, y :: after, by simp⟩
    · -- the place is behind the two
      have hafter : b ∈ after := by simpa [hbefore, hne, hx] using hb
      obtain ⟨after₁, after₂, rfl, hfirst⟩ := List.eq_append_cons_of_mem hafter
      have hnone : b ∉ before ++ ([a, x] ++ after₁) := by simp [hbefore, hne, hx, hfirst]
      have hput := putAfter_append (x := y) hnone after₂
      rw [List.append_assoc, List.append_assoc] at hput
      rw [hput]
      exact ⟨before, after₁ ++ b :: y :: after₂, by simp⟩

/-- Nothing else comes, and nothing goes. -/
theorem mem_putAfter (h : a ∈ l) : y ∈ putAfter a x l ↔ y = x ∨ y ∈ l := by
  obtain ⟨before, after, hl, _, hput⟩ := exists_putAfter x h
  rw [hput, hl]
  simp only [List.mem_append, List.mem_cons]
  tauto

/-- A new entry leaves a list without repetitions. -/
theorem nodup_putAfter (h : a ∈ l) (hl : l.Nodup) (hx : x ∉ l) : (putAfter a x l).Nodup := by
  have hperm : (putAfter a x l).Perm (x :: l) := by
    unfold putAfter
    have := List.idxOf_lt_length_of_mem h
    exact List.perm_insertIdx _ _ (by omega)
  exact hperm.nodup_iff.mpr (List.nodup_cons.mpr ⟨hx, hl⟩)

omit [LawfulBEq α] in
/-- What a predicate rules out is not seen where it is put. -/
theorem filter_putAfter {p : α → Bool} (hx : p x = false) (l : List α) :
    (putAfter a x l).filter p = l.filter p :=
  filter_insertIdx hx l _

/-- Of two things that are put after two others either may come first, unless one is put after the
other. -/
theorem putAfter_comm (hab : a ≠ b) (hay : a ≠ y) (hbx : b ≠ x) (l : List α) :
    putAfter a x (putAfter b y l) = putAfter b y (putAfter a x l) := by
  induction l with
  | nil =>
    have hnil : ∀ c z : α, putAfter c z [] = [] := fun c z =>
      putAfter_of_not_mem z List.not_mem_nil
    rw [hnil, hnil, hnil]
  | cons c rest ih =>
    by_cases hca : c = a
    · subst hca
      rw [putAfter_cons_ne y hab, putAfter_cons_self, putAfter_cons_self, putAfter_cons_ne y hab,
        putAfter_cons_ne y hbx.symm]
    · by_cases hcb : c = b
      · subst hcb
        rw [putAfter_cons_self, putAfter_cons_ne x hca, putAfter_cons_ne x hay.symm,
          putAfter_cons_ne x hca, putAfter_cons_self]
      · rw [putAfter_cons_ne y hcb, putAfter_cons_ne x hca, putAfter_cons_ne x hca,
          putAfter_cons_ne y hcb, ih]

/-- What is put after something that is kept, and is kept itself, may be put there before or after
the rest has gone. -/
theorem filter_putAfter_of_kept {p : α → Bool} (ha : p a = true) (hx : p x = true) (l : List α) :
    (putAfter a x l).filter p = putAfter a x (l.filter p) := by
  induction l with
  | nil => rw [putAfter_of_not_mem x List.not_mem_nil, List.filter_nil,
      putAfter_of_not_mem x List.not_mem_nil]
  | cons c rest ih =>
    by_cases hca : c = a
    · subst hca
      rw [putAfter_cons_self, List.filter_cons_of_pos ha, List.filter_cons_of_pos hx,
        List.filter_cons_of_pos ha, putAfter_cons_self]
    · rw [putAfter_cons_ne x hca]
      cases hc : p c with
      | true =>
        rw [List.filter_cons_of_pos hc, List.filter_cons_of_pos hc, ih, putAfter_cons_ne x hca]
      | false =>
        have hgone : ¬ p c = true := by simp [hc]
        rw [List.filter_cons_of_neg hgone, List.filter_cons_of_neg hgone, ih]

/-- Two things may be taken out and put after two others in either order. -/
theorem putAfter_filter_comm (hab : a ≠ b) (hay : a ≠ y) (hbx : b ≠ x) (hxy : x ≠ y) (l : List α) :
    putAfter b y ((putAfter a x (l.filter (· != x))).filter (· != y)) =
      putAfter a x ((putAfter b y (l.filter (· != y))).filter (· != x)) := by
  rw [filter_putAfter_of_kept (p := (· != y)) (bne_iff_ne.mpr hay) (bne_iff_ne.mpr hxy),
    filter_putAfter_of_kept (p := (· != x)) (bne_iff_ne.mpr hbx) (bne_iff_ne.mpr hxy.symm),
    putAfter_comm hab.symm hbx hay, List.filter_comm]

/-- A list without repetitions is its rest with that put into it which stands right behind something
else. -/
theorem eq_putAfter (hl : l.Nodup) (h : [a, x] <:+: l) :
    l = putAfter a x (l.filter (· != x)) := by
  obtain ⟨before, after, rfl⟩ := h
  rw [List.append_assoc, List.cons_append, List.singleton_append] at hl ⊢
  obtain ⟨_, htail, hapart⟩ := List.nodup_append.mp hl
  obtain ⟨ha, htail⟩ := List.nodup_cons.mp htail
  obtain ⟨hx, _⟩ := List.nodup_cons.mp htail
  have hbefore : before.filter (· != x) = before :=
    List.filter_eq_self.mpr fun c hc => by simpa using hapart c hc x (by simp)
  have hafter : after.filter (· != x) = after :=
    List.filter_eq_self.mpr fun c hc => by simpa using fun heq : c = x => hx (heq ▸ hc)
  have hax : a ≠ x := fun heq => ha (heq ▸ List.mem_cons_self)
  rw [List.filter_append, hbefore, List.filter_cons_of_pos (by simpa using hax),
    List.filter_cons_of_neg (by simp), hafter,
    putAfter_append fun hmem => hapart a hmem a List.mem_cons_self rfl]

/-- What is found behind an element stands right behind it. -/
theorem infix_of_getElem? (h : a ∈ l) (hx : l[l.idxOf a + 1]? = some x) : [a, x] <:+: l := by
  obtain ⟨before, after, rfl, hbefore⟩ := List.eq_append_cons_of_mem h
  have hidx : (before ++ a :: after).idxOf a = before.length := by
    rw [List.idxOf_append_of_notMem hbefore, List.idxOf_cons_self, Nat.add_zero]
  rw [hidx, List.getElem?_append_right (by omega)] at hx
  cases after with
  | nil => simp at hx
  | cons c rest =>
    obtain rfl : c = x := by simpa using hx
    exact ⟨before, rest, by simp⟩

end Lists

namespace Store

variable {s t : Store}

/-- What stands in the list of a block is what is linked to the block, and it stands there once. -/
structure ListsAgree (s : Store) : Prop where
  mem_iff : ∀ b slot, slot ∈ s.instructionsOf b ↔ ∃ x, slot = .ofValue x ∧ s.blockOf? x = some b
  once : ∀ b, (s.instructionsOf b).Nodup

/-- Where lists and links agree, the list of a block has the instructions that are linked to it. -/
theorem ListsAgree.mem_instructionsOf (h : s.ListsAgree) {b x : ValueId} :
    .ofValue x ∈ s.instructionsOf b ↔ s.blockOf? x = some b := by
  rw [h.mem_iff]
  constructor
  · rintro ⟨x', hx, hblock⟩
    obtain rfl : x = x' := by simpa using hx
    exact hblock
  · exact fun hblock => ⟨x, rfl, hblock⟩

/-- Lists and links that stay as they are agree still. -/
theorem ListsAgree.of_unmoved (hs : s.ListsAgree) (h : s.Unmoved t) : t.ListsAgree where
  mem_iff b slot := by
    rw [h.instructionsOf, hs.mem_iff]
    exact exists_congr fun x => and_congr_right fun _ => by rw [h.blockOf?]
  once b := h.instructionsOf b ▸ hs.once b

/-- Whether lists and links agree is seen from the values that have been made. -/
theorem listsAgree_iff : s.ListsAgree ↔ ∀ i < s.values.size, (s.instructionsOf ⟨i⟩).Nodup ∧
    (∀ slot ∈ s.instructionsOf ⟨i⟩, ∃ x ∈ slot.value?, s.blockOf? x = some ⟨i⟩) ∧
    ∀ b ∈ s.blockOf? ⟨i⟩, .ofValue ⟨i⟩ ∈ s.instructionsOf b := by
  constructor
  · intro h i _
    refine ⟨h.once ⟨i⟩, fun slot hslot => ?_, fun b hb => h.mem_instructionsOf.mpr hb⟩
    obtain ⟨x, rfl, hx⟩ := (h.mem_iff ⟨i⟩ slot).mp hslot
    exact ⟨x, rfl, hx⟩
  · intro h
    have hmade : ∀ {b : ValueId} {slot}, slot ∈ s.instructionsOf b → b.index < s.values.size := by
      intro b slot hslot
      obtain ⟨o, ho, _⟩ := formOf?_eq_block.mp (formOf?_of_mem_instructionsOf hslot)
      exact index_lt_of_get? ho
    refine ⟨fun b slot => ⟨fun hslot => ?_, ?_⟩, fun b => ?_⟩
    · obtain ⟨x, hx, hblock⟩ := (h b.index (hmade hslot)).2.1 slot hslot
      exact ⟨x, Slot.value?_eq_some_iff.mp hx, hblock⟩
    · rintro ⟨x, rfl, hblock⟩
      obtain ⟨o, ho, _⟩ := Option.bind_eq_some_iff.mp hblock
      exact (h x.index (index_lt_of_get? ho)).2.2 b hblock
    · by_cases hnil : s.instructionsOf b = []
      · rw [hnil]
        exact List.nodup_nil
      · obtain ⟨slot, hslot⟩ := List.exists_mem_of_ne_nil _ hnil
        exact (h b.index (hmade hslot)).1

instance : Decidable s.ListsAgree :=
  decidable_of_iff _ listsAgree_iff.symm

namespace Rearranges

variable {a : Arrangement}

theorem instructionsOf (h : s.Rearranges a t) (b : ValueId) :
    t.instructionsOf b = (a.standing b).instructions := by
  rw [← instructions_standing, ← h.arrangement]
  rfl

theorem blockOf? (h : s.Rearranges a t) (v : ValueId) : t.blockOf? v = (a.standing v).block := by
  rw [← block_standing, ← h.arrangement]
  rfl

theorem functionOf? (h : s.Rearranges a t) (v : ValueId) : t.functionOf? v = a.function? v := by
  rw [← function?_arrangement, h.arrangement]

end Rearranges

/-- An instruction stands in a block then, where it is put on the list; all else keeps its links,
and other blocks their lists. -/
structure Puts (s : Store) (b x : ValueId) (list : List Slot) (t : Store) : Prop where
  form : ∀ {v form}, s.formOf? v = some form → t.formOf? v = some form
  instructionsOf : ∀ c, t.instructionsOf c = if c = b then list else s.instructionsOf c
  blockOf? : ∀ v, t.blockOf? v = if v = x then some b else s.blockOf? v
  functionOf? : ∀ v, t.functionOf? v = if v = x then s.functionOf? b else s.functionOf? v

/-- An instruction stands in no block then, and in no list; all else keeps its links. If it stood in
a block, it has left its function. -/
structure Withdraws (s : Store) (x : ValueId) (t : Store) : Prop where
  form : ∀ {v form}, s.formOf? v = some form → t.formOf? v = some form
  instructionsOf : ∀ c, t.instructionsOf c = (s.instructionsOf c).erase (.ofValue x)
  blockOf? : ∀ v, t.blockOf? v = if v = x then none else s.blockOf? v
  functionOf? : ∀ v, v ≠ x → t.functionOf? v = s.functionOf? v
  left : t = s ∨ t.functionOf? x = none

end Store

open Act Store Arrangement

variable {s t : Store} {b x target : ValueId}

/-- An exchange that brings in one instruction puts it into the list. -/
theorem Store.Rearranges.puts {list : List Slot}
    (h : s.Rearranges (s.arrangement.exchange b [] [.ofValue x] list (s.functionOf? b)) t) :
    s.Puts b x list t where
  form := h.form
  instructionsOf c := by
    rw [h.instructionsOf]
    exact congrArg (if c = b then list else ·) (instructions_standing c)
  blockOf? v := by
    rw [h.blockOf?]
    show (if _ then _ else if _ then _ else (s.standing v).block) = _
    simp
  functionOf? v := by
    rw [h.functionOf?]
    split
    · next hv =>
      subst hv
      cases hf : s.functionOf? b <;> simp [function?, exchange]
    · next hv => rw [function?_exchange (by simpa using hv) (by simp), function?_arrangement]

/-- The place of what is in a list is that of its first occurrence. -/
theorem run_indexIn {slot : Slot} (hslot : slot ∈ s.instructionsOf b) :
    (indexIn b slot).run s = (.ok ((s.instructionsOf b).idxOf slot), s) := by
  obtain ⟨o, ho, _⟩ := formOf?_eq_block.mp (formOf?_of_mem_instructionsOf hslot)
  have hlist : s.instructionsOf b = o.instructions := by
    rw [instructionsOf, ho]
    rfl
  rw [hlist] at hslot ⊢
  have hplace : o.instructions.idxOf? slot = some (o.instructions.idxOf slot) := by
    obtain ⟨place, hplace⟩ := Option.isSome_iff_exists.mp (List.isSome_idxOf?.mpr hslot)
    rw [List.idxOf_eq_getD_idxOf?, hplace]
    rfl
  rw [indexIn, run_fetch_bind ho, hplace]
  rfl

/-- An instruction that is put after another one stands right behind it. -/
theorem insertAfter_puts (hs : s.Closed) (hb : s.formOf? b = some .block)
    (hx : s.formOf? x = some .instruction) {after : Slot} (hafter : after ∈ s.instructionsOf b) :
    (insertAfter b x after).Ends s
      (fun _ t => s.Puts b x (putAfter after (.ofValue x) (s.instructionsOf b)) t) nameLost := by
  refine (linkTo_ends hs hb hx).bind fun _ t ⟨hlist, ht⟩ => ?_
  have hput := ht (·.insertIdx ((s.instructionsOf b).idxOf after + 1) (.ofValue x))
  have hindex : (indexIn b after).run t = (.ok ((s.instructionsOf b).idxOf after), t) := by
    rw [run_indexIn (hlist ▸ hafter), hlist]
  exact ends_run_bind hindex hput.puts

/-- An instruction without a block is placed right behind one that stands in a block. -/
theorem placeAfter_puts (hs : s.Closed) (hx : s.formOf? x = some .instruction)
    (hnone : s.blockOf? x = none) (htarget : s.blockOf? target = some b)
    (hmem : .ofValue target ∈ s.instructionsOf b) :
    (placeAfter x (.ofValue target)).Ends s (fun _ t =>
      s.Puts b x (putAfter (.ofValue target) (.ofValue x) (s.instructionsOf b)) t) nameLost := by
  refine ends_get_bind ?_
  rw [hnone]
  refine instructionIn_bind_ends (formOf?_of_blockOf? htarget) (ends_get_bind ?_)
  rw [htarget]
  exact insertAfter_puts hs (formOf?_of_mem_instructionsOf hmem) hx hmem

/-- An instruction that is taken out of its block is in no list any more. -/
theorem removeFromParent_withdraws (hs : s.Closed) (h : s.ListsAgree) :
    (removeFromParent x).Ends s (fun _ t => s.Withdraws x t)
      fun f t => f = .nameNotRegistered ∨ t = s := by
  -- what is not linked to a block is not on its list, so that erasing it there does nothing
  have hlists : ∀ c, s.blockOf? x ≠ some c →
      s.instructionsOf c = (s.instructionsOf c).erase (.ofValue x) := by
    intro c hc
    rw [List.erase_of_not_mem]
    exact fun hmem => hc (h.mem_instructionsOf.mp hmem)
  refine ends_get_bind ?_
  cases hblock : s.blockOf? x with
  | none =>
    refine ends_pure ⟨fun h => h, fun c => hlists c (by simp [hblock]), fun v => ?_, fun _ _ => rfl,
      .inl rfl⟩
    split
    · next hv => rw [hv, hblock]
    · rfl
  | some b =>
    have hinsns : ∀ slot ∈ s.instructionsOf b,
        ∃ x, slot = .ofValue x ∧ s.formOf? x = some .instruction := by
      intro slot hslot
      obtain ⟨y, rfl, hy⟩ := (h.mem_iff b slot).mp hslot
      exact ⟨y, rfl, formOf?_of_blockOf? hy⟩
    refine (removeFrom_ends hs hinsns none).mono (fun _ t ⟨_, ht⟩ => ?_) fun _ _ hf => hf
    refine ⟨ht.form, fun c => ?_, fun v => ?_, fun v hv => ?_, .inr ?_⟩
    · rw [ht.instructionsOf]
      show (if c = b then _ else (s.standing c).instructions) = _
      split
      · next hc => rw [hc]
      · next hc =>
        rw [instructions_standing]
        exact hlists c fun heq => hc (Option.some_inj.mp (hblock.symm.trans heq)).symm
    · rw [ht.blockOf?]
      simp [exchange, arrangement]
    · rw [ht.functionOf?, function?_exchange (by simp) (by simpa using hv), function?_arrangement]
    · rw [ht.functionOf?]
      simp [function?, exchange]

end SsaDebugInfo
