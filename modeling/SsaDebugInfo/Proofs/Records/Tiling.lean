import SsaDebugInfo.Proofs.Layout.Coherence
import SsaDebugInfo.Proofs.Records.Exceeding

/-!
# Elements that tile their vector

A scattering that succeeds has put one record behind every insertion, whatever else holds of the
store: what it would otherwise have needed to know it has found out on the way. The pieces that the
records describe are all as wide as an element, and begin where the indices say. So those of
different indices have no bit in common, and those of all indices make up the vector.

- `scatterOne_inserted`, `carryOut_scattered`, `scatter_scattered`: what a success tells.
- `elementPiece`: the piece of an element; `not_has_elementPiece`: the pieces of different elements.
- `Tiles`, `tiles_elementPiece`: the pieces of all elements.
-/

namespace SsaDebugInfo

open Act Store

variable {s t u : Store} {slot : Slot} {r v x link : ValueId}

/-! ## What a success tells -/

/-- Linking an instruction to a block leaves all lists as they are. -/
theorem setBlock_lists (hs : s.Closed) (hx : s.formOf? x = some .instruction) {b : ValueId}
    (hb : s.Has (.value b)) (h : (setBlock x (some b)).run s = (.ok (), t)) (c : ValueId) :
    t.instructionsOf c = s.instructionsOf c := by
  have hlinked := ((setBlock_ends hs hx fun c hc => Option.some_inj.mp hc ▸ hb).ok h).arrangement
  have hstanding := congrArg (fun a : Arrangement => (a.standing c).instructions) hlinked
  rw [← instructions_standing, ← instructions_standing]
  refine hstanding.trans ?_
  show (if c = x then _ else s.standing c : Standing).instructions = _
  split
  · next hc => rw [hc]; rfl
  · rfl

/-- Something is placed after another only if that stands in the list of its block. -/
theorem placeAfter_placed (hs : s.Closed) (hx : s.formOf? x = some .instruction)
    (h : (placeAfter x (.ofValue link)).run s = (.ok (), t)) :
    ∃ b, s.blockOf? link = some b ∧ .ofValue link ∈ s.instructionsOf b := by
  obtain ⟨_, _, ⟨⟩, h⟩ := run_bind_ok h
  obtain ⟨_, _, hrequire, h⟩ := run_bind_ok h
  rw [run_require] at hrequire
  obtain ⟨_, rfl⟩ := Prod.mk.inj hrequire
  obtain ⟨target, htarget, h⟩ := run_ask_bind_ok h
  obtain ⟨⟨_, i⟩, hin, rfl⟩ := Option.map_eq_some_iff.mp (found_eq_ok.mp htarget)
  obtain ⟨hlink, _⟩ := instructionIn?_eq_some.mp hin
  obtain rfl : link = _ := by simpa using hlink
  rw [run_get_bind] at h
  dsimp only at h
  split at h
  · cases h
  · next b hb =>
    refine ⟨b, hb, ?_⟩
    obtain ⟨_, w, hset, h⟩ := run_bind_ok h
    obtain ⟨place, _, hplace, _⟩ := run_bind_ok h
    obtain ⟨o, ho, hidx⟩ := run_ask_bind_ok hplace
    obtain ⟨a, ha, hblock⟩ := Option.bind_eq_some_iff.mp hb
    have hhas : s.Has (.value b) := hasIn_some.mp ((hs.holdsOnly ha).block b hblock)
    rw [← setBlock_lists hs hx hhas hset, instructionsOf, found_eq_ok.mp ho]
    cases hfound : o.instructions.idxOf? (.ofValue link) with
    | none =>
      rw [hfound] at hidx
      cases hidx
    | some place => exact List.isSome_idxOf?.mp (Option.isSome_of_eq_some hfound)

/-- Nothing but a value gets a record. -/
theorem makeRecord_value {binding : Binding} {loc : Slot}
    (h : (makeRecord slot binding loc).run s = (.ok r, t)) :
    ∃ element, slot = .ofValue element := by
  obtain ⟨_, _, hhandle, _⟩ := run_bind_ok h
  obtain ⟨handle?, _, hexists, hhandle⟩ := run_bind_ok hhandle
  cases handle? with
  | some handle =>
    obtain ⟨c, _, _, hexists⟩ := run_bind_ok hexists
    obtain ⟨context, _, hanswer⟩ := run_ask_bind_ok hexists
    have hanswer := Except.ok.inj (Prod.mk.inj hanswer).1
    obtain ⟨element, helement, _⟩ := Option.bind_eq_some_iff.mp hanswer
    exact ⟨element, Slot.value?_eq_some_iff.mp helement⟩
  | none =>
    obtain ⟨id, hid, _⟩ := run_ask_bind_ok hhandle
    obtain ⟨⟨_, a⟩, hin, rfl⟩ := Option.map_eq_some_iff.mp (found_eq_ok.mp hid)
    exact ⟨_, (valueIn?_eq_some.mp hin).1⟩

theorem run_operandAt_ok {place : Nat} (h : (operandAt x place).run s = (.ok slot, t)) :
    (s.operandsOf x)[place]? = some slot ∧ t = s := by
  obtain ⟨o, ho, h⟩ := run_ask_bind_ok h
  rw [operandsOf_eq (found_eq_ok.mp ho)]
  split at h
  · next operand hoperand =>
    obtain ⟨⟨⟩, rfl⟩ := Prod.mk.inj h
    exact ⟨hoperand, rfl⟩
  · cases h

/-- A record for an element only comes behind an insertion that stands in the list of its block and
inserts a value. -/
theorem scatterOne_inserted (hs : s.Sound) {var loc : Slot} (hvar : s.HasIn var)
    (hloc : s.HasIn loc) (hhas : s.Has (.value link)) (width offset : Int)
    (h : (scatterOne var loc width (link, offset)).run s = (.ok (), t)) : t.Sound ∧
      ∃ b element r, ∃ e : NodeId, s.blockOf? link = some b ∧
        .ofValue link ∈ s.instructionsOf b ∧
        (s.operandsOf link)[1]? = some (.ofValue element) ∧
        t.get? e = some (.expression (Expression.ofBitPiece offset width)) ∧
        s.Inserts link r element ⟨var, .ofNode e, 0⟩ loc t := by
  let u := s.push .node (.expression (Expression.ofBitPiece offset width))
  obtain ⟨hu, hretains, hunmoved⟩ : u.Sound ∧ s.Retains u ∧ s.Unmoved u :=
    retains_push_expression hs (Expression.ofBitPiece offset width)
  obtain ⟨e, _, hcreate, hrest⟩ := run_bind_ok h
  obtain ⟨⟨⟩, rfl⟩ := Prod.mk.inj hcreate
  obtain ⟨slot, _, hoperand, hrest⟩ := run_bind_ok hrest
  obtain ⟨helement, rfl⟩ := run_operandAt_ok hoperand
  obtain ⟨_, _, hbind, _⟩ := run_bind_ok hrest
  have hbind : (do
      let r ← makeRecord slot ⟨var, .ofNode (s.nextId .node), 0⟩ loc
      placeAfter r (.ofValue link)
      return r : Act ValueId).run u = _ := hbind
  obtain ⟨r, w, hmake, hbind⟩ := run_bind_ok hbind
  obtain ⟨_, _, hplace, _⟩ := run_bind_ok hbind
  obtain ⟨element, rfl⟩ := makeRecord_value hmake
  have hgiven : u.Has (.value element) :=
    hasIn_some.mp (hu.closed.hasIn_operand (List.mem_of_getElem? helement))
  have hfound : u.HasIn (.ofNode (s.nextId .node)) := hasIn_some.mpr (has_push.mpr (.inl rfl))
  obtain ⟨hw, hstill, _, hr⟩ := (makeRecord_describes hu hgiven (hretains.hasIn hvar) hfound
    (hretains.hasIn hloc)).ok hmake
  -- the insertion stands where it stood before the record was made
  have hsw : s.Unmoved w := hunmoved.trans hstill
  obtain ⟨b, hblock, hmem⟩ := placeAfter_placed hw.closed (formOf?_of_isRecord hr.isRecord) hplace
  rw [hsw.blockOf?] at hblock
  rw [hsw.instructionsOf] at hmem
  rw [hretains.operandsOf hhas] at helement
  obtain ⟨ht, hinserts⟩ := (scatterOne_inserts hs hvar hloc width offset hblock hmem helement).ok h
  obtain ⟨r', e', he, hinserts⟩ := hinserts
  exact ⟨ht, b, element, r', e', hblock, hmem, helement, he, hinserts⟩

/-- Carrying out a plan puts a record behind every insertion, if it does not fault. -/
theorem carryOut_scattered (hs : s.Sound) {plan : Plan} (hvar : s.HasIn plan.var)
    (hloc : s.HasIn plan.loc) (honce : plan.inserts.Nodup)
    (hhas : ∀ link ∈ plan.inserts, s.Has (.value link)) :
    (plan.carryOut r v).Ends s (fun _ t => ∃ records, s.Scattered plan.var plan.loc plan.width
      (plan.inserts.zip plan.offsets) records t) fun _ _ => True := by
  let pieces := plan.inserts.zip plan.offsets
  have hpieces : ((plan.inserts.zip plan.offsets).map Prod.fst).Nodup :=
    nodup_fst_zip honce plan.offsets
  refine Ends.bind (ends_forM (fun pieces t => t.Sound ∧
    ∃ records, s.Scattered plan.var plan.loc plan.width pieces records t)
    ⟨hs, [], .start s plan.var plan.loc plan.width⟩ ?_) ?_
  · rintro before ⟨link, offset⟩ after hl t ⟨ht, records, hscattered⟩
    have hmem : (link, offset) ∈ pieces := by simp [pieces, hl]
    have hlink := hhas link (List.of_mem_zip hmem).1
    refine (Ends.run _ t).mono (fun _ u hrun => ?_) fun _ _ _ => trivial
    obtain ⟨hu, b, element, r', e, hblock, hlist, helement, he, hinserts⟩ :=
      scatterOne_inserted ht (hscattered.hasIn hvar) (hscattered.hasIn hloc) (hscattered.has hlink)
        plan.width offset hrun
    rw [hscattered.blockOf? hlink] at hblock
    rw [hscattered.operandsOf hlink] at helement
    -- the records that have come are not the insertion, which was there before
    have hlist : .ofValue link ∈ s.instructionsOf b := by
      rw [← hscattered.lists b, List.mem_filter]
      refine ⟨hlist, decide_eq_true fun hrecord => ?_⟩
      obtain ⟨r'', hr'', heq⟩ := List.mem_map.mp hrecord
      obtain rfl : r'' = link := by simpa using heq
      exact (hscattered.come r'' hr'').1 hlink
    refine ⟨hu, records ++ [r'], ?_⟩
    exact hscattered.insert ht.closed hblock hlist (not_mem_fst_before (hl ▸ hpieces)) helement he
      hinserts
  · rintro _ t ⟨ht, records, hscattered⟩
    refine ends_ask_bind (fun _ _ => trivial) fun text _ => ?_
    exact ⟨records, hscattered.intact (Intact.record _ t) (Interns.annotate ht _ _).more⟩

/-- Scattering puts a record behind every insertion, if it does not fault. -/
theorem scatter_scattered (hs : s.Sound) {o : Value} {type : Ty} {width : Int} {binding : Binding}
    {parent : Option Expression.BitPiece} {links : List ValueId} {index : ValueId → Int}
    (ho : s.get? v = some o) (hinsert : o.isInsertElement = true)
    (htype : o.type.vectorElement? = some type)
    (hfind : (findRecord (.ofValue v)).run s = (.ok (some r), u))
    (hwidth : ((s.layoutFor r).sizeInBits type).1 = .ok width)
    (hbinding : (s.get? r).bind Value.binding? = some binding)
    (hparent : s.parentPiece binding.expression = .ok parent)
    (hbuilds : s.Builds (.ofValue v) links)
    (hindex : ∀ link ∈ links, s.elementIndex link = .ok (index link))
    (hrun : (scatter (.ofValue v)).run s = (.ok (), t)) :
    ∃ loc records, s.Scattered binding.var loc width
      (links.map fun link => (link, pieceStart parent + index link * width)) records t := by
  have hfits := (scatter_exceeds hs ho hinsert htype hfind hwidth hbinding hbuilds hindex).ok hrun
  obtain ⟨loc, hloc⟩ := instruction?_of_binding? hbinding
  have hends : (scatter (.ofValue v)).Ends s (fun _ t => ∃ records,
      s.Scattered binding.var loc width
        (links.map fun link => (link, pieceStart parent + index link * width)) records t)
      fun _ _ => True := by
    refine scatter_as_planned hs ho hinsert htype hfind hwidth hbinding hloc hparent hbuilds hindex
      (fun link hlink piece hpiece => hfits piece (hpiece ▸ hparent) link hlink)
      fun w hsw hedited hvar hloc => ?_
    refine (carryOut_scattered (hedited.sound hs) hvar hloc hbuilds.nodup fun link hlink => ?_).mono
      ?_ fun _ _ _ => trivial
    · obtain ⟨a, ha, _⟩ := hbuilds.insertion hlink
      exact hsw.has (has_value_iff.mpr ⟨a, ha⟩)
    · rintro _ t ⟨records, hscattered⟩
      rw [← List.map_prod_left_eq_zip] at hscattered
      exact ⟨records, hscattered.of_intact hsw (hedited.edits.moreTables hs)⟩
  obtain ⟨records, hscattered⟩ := hends.ok hrun
  exact ⟨loc, records, hscattered⟩

/-! ## Pieces -/

namespace Expression.BitPiece

/-- Whether a bit of a variable is in a piece. -/
def Has (piece : BitPiece) (bit : Int) : Prop :=
  piece.offset ≤ bit ∧ bit < piece.offset + piece.size

/-- Two pieces have no bit in common. -/
def Apart (piece other : BitPiece) : Prop :=
  ∀ bit, ¬ (piece.Has bit ∧ other.Has bit)

end Expression.BitPiece

/-- The piece of the element at an index of a vector that starts somewhere. -/
def elementPiece (start width index : Int) : Expression.BitPiece :=
  ⟨start + index * width, width⟩

/-- The elements at different indices have no bit in common. -/
theorem apart_elementPiece (start width : Int) {i j : Int} (h : i ≠ j) :
    (elementPiece start width i).Apart (elementPiece start width j) := by
  -- the elements between the two do not fit between two bits of one
  have hlt : ∀ {i j bit : Int}, i < j → (elementPiece start width i).Has bit →
      (elementPiece start width j).Has bit → False := by
    rintro i j bit hij ⟨hi, hi'⟩ ⟨hj, hj'⟩
    simp only [elementPiece] at hi hi' hj hj'
    have hwidth : 0 ≤ width := by omega
    have hle : (i + 1) * width ≤ j * width := Int.mul_le_mul_of_nonneg_right (by omega) hwidth
    rw [Int.add_mul, Int.one_mul] at hle
    omega
  rintro bit ⟨hi, hj⟩
  rcases Int.lt_or_gt_of_ne h with hij | hij
  · exact hlt hij hi hj
  · exact hlt hij hj hi

/-- Pieces tile an interval: no two have a bit in common, and together they have all bits of it. -/
structure Tiles (pieces : List Expression.BitPiece) (start size : Int) : Prop where
  apart : pieces.Pairwise Expression.BitPiece.Apart
  bits : ∀ bit, (∃ piece ∈ pieces, piece.Has bit) ↔ start ≤ bit ∧ bit < start + size

/-- A bit of a vector is in the element that its distance from the start tells. -/
theorem has_elementPiece_iff {start width : Int} {n : Nat} {bit : Int} :
    (∃ i : Nat, i < n ∧ (elementPiece start width i).Has bit) ↔
      start ≤ bit ∧ bit < start + n * width := by
  constructor
  · rintro ⟨i, hi, hstart, hend⟩
    simp only [elementPiece] at hstart hend
    have hwidth : 0 ≤ width := by omega
    have hnonneg : (0 : Int) ≤ i * width := Int.mul_nonneg (by omega) hwidth
    have hle : ((i : Int) + 1) * width ≤ n * width :=
      Int.mul_le_mul_of_nonneg_right (by omega) hwidth
    rw [Int.add_mul, Int.one_mul] at hle
    omega
  · rintro ⟨hstart, hend⟩
    have hwidth : 0 < width := by
      by_contra hnot
      have hle : (n : Int) * width ≤ 0 := Int.mul_nonpos_of_nonneg_of_nonpos (by omega) (by omega)
      omega
    -- the element that the bit is in
    let i := (bit - start) / width
    have hlow : i * width ≤ bit - start := Int.ediv_mul_le _ (by omega)
    have hhigh : bit - start < (i + 1) * width := Int.lt_ediv_add_one_mul_self _ hwidth
    have hnonneg : 0 ≤ i := Int.ediv_nonneg (by omega) (by omega)
    have hlt : i < n := Int.lt_of_mul_lt_mul_right (a := width) (by omega) (by omega)
    rw [Int.add_mul, Int.one_mul] at hhigh
    refine ⟨i.toNat, by omega, ?_, ?_⟩
    · simp only [elementPiece, Int.toNat_of_nonneg hnonneg]
      omega
    · simp only [elementPiece, Int.toNat_of_nonneg hnonneg]
      omega

/-- The elements at all indices, in whatever order, tile the vector. -/
theorem tiles_elementPiece (start width : Int) {indices : List Int} {n : Nat}
    (h : indices.Perm ((List.range n).map Int.ofNat)) :
    Tiles (indices.map (elementPiece start width)) start (n * width) := by
  constructor
  · have hnodup : indices.Nodup :=
      h.nodup_iff.mpr (List.nodup_range.map fun _ _ => Int.ofNat.inj)
    exact List.pairwise_map.mpr (hnodup.imp fun hne => apart_elementPiece start width hne)
  · intro bit
    rw [← has_elementPiece_iff]
    constructor
    · rintro ⟨_, hpiece, hbit⟩
      obtain ⟨_, hi, rfl⟩ := List.mem_map.mp hpiece
      obtain ⟨i, hrange, rfl⟩ := List.mem_map.mp (h.mem_iff.mp hi)
      exact ⟨i, List.mem_range.mp hrange, hbit⟩
    · rintro ⟨i, hi, hbit⟩
      refine ⟨_, List.mem_map_of_mem (h.mem_iff.mpr ?_), hbit⟩
      exact List.mem_map.mpr ⟨i, List.mem_range.mpr hi, rfl⟩

/-! ## The pieces of records -/

section Related

variable {α β : Type} {l : List α} {l' : List β}

theorem exists_of_forall₂ {R : α → β → Prop} (h : List.Forall₂ R l l') {b : β} (hb : b ∈ l') :
    ∃ a ∈ l, R a b := by
  induction h with
  | nil => cases hb
  | cons hab _ ih =>
    rcases List.mem_cons.mp hb with rfl | hb
    · exact ⟨_, List.mem_cons_self, hab⟩
    · obtain ⟨a, ha, hR⟩ := ih hb
      exact ⟨a, List.mem_cons_of_mem _ ha, hR⟩

theorem filterMap_of_forall₂ {f : α → β} {γ : Type} {g : γ → Option β} {l' : List γ}
    (h : List.Forall₂ (fun a c => g c = some (f a)) l l') : l'.filterMap g = l.map f := by
  induction h with
  | nil => rfl
  | cons hac _ ih => rw [List.filterMap_cons_some hac, ih, List.map_cons]

end Related

namespace Store

/-- The bit piece of the variable that a record describes, if it describes one. -/
def pieceOf? (s : Store) (r : ValueId) : Option Expression.BitPiece := do
  let binding ← (s.get? r).bind Value.binding?
  (s.parentPiece binding.expression).toOption.join

variable {var loc : Slot} {width : Int} {pieces : List (ValueId × Int)} {records : List ValueId}

/-- The record of an element describes the bits of the element. -/
theorem Covers.pieceOf? {piece : ValueId × Int} (h : s.Covers var loc width t piece r) :
    t.pieceOf? r = some ⟨piece.2, width⟩ := by
  obtain ⟨_, e, _, he, hdescribes⟩ := h.describes
  obtain ⟨o, ho, hopcode, _⟩ := hdescribes.tells
  have hbinding : (t.get? r).bind Value.binding? = some ⟨var, .ofNode e, 0⟩ := by
    rw [ho, Option.bind_some, Value.binding?, hopcode]
    rfl
  unfold Store.pieceOf?
  rw [hbinding]
  show (t.parentPiece (.ofNode e)).toOption.join = _
  have hnode : t.nodeIn? (.ofNode e) =
    some (.expression (Expression.ofBitPiece piece.2 width)) := he
  unfold parentPiece
  simp only [hnode]
  rfl

/-- The records that a scattering makes are the new records. -/
theorem Scattered.mem_records (h : s.Scattered var loc width pieces records t) :
    r ∈ records ↔ t.isRecord r = true ∧ ¬ s.Has (.value r) := by
  constructor
  · intro hr
    obtain ⟨piece, _, hcovers⟩ := exists_of_forall₂ h.each hr
    obtain ⟨_, _, _, _, hdescribes⟩ := hcovers.describes
    exact ⟨hdescribes.isRecord, (h.come r hr).1⟩
  · rintro ⟨hrecord, hnew⟩
    rcases h.values r (has_of_isRecord hrecord) with hold | hr | ⟨n, hn⟩
    · exact absurd hold hnew
    · exact hr
    · -- a wrapper is no record
      obtain ⟨o, ho, hrecord⟩ := isRecord_iff.mp hrecord
      rw [wrappedAt_eq ho, Value.wrapped?_of_isDebugValue hrecord] at hn
      cases hn

/-- The records that a scattering makes describe the elements. -/
theorem Scattered.pieceOf? {links : List ValueId} {index : ValueId → Int} {start : Int}
    (h : s.Scattered var loc width
      (links.map fun link => (link, start + index link * width)) records t) :
    List.Forall₂ (fun link r => t.pieceOf? r = some (elementPiece start width (index link)))
      links records :=
  (List.forall₂_map_left_iff.mp h.each).imp fun _ _ hcovers => hcovers.pieceOf?

end Store

end SsaDebugInfo
