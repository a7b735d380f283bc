import SsaDebugInfo.Proofs.Records.Chain
import SsaDebugInfo.Proofs.Script.Session
import SsaDebugInfo.Proofs.Touches

/-!
# The pieces that scattering makes

Scattering describes each element of a vector by a bit piece. If the vector itself is described by a
bit piece, an element that would end behind it is refused; where an element starts follows from its
index and is not looked at.

- `scatter_pieces`: where the pieces lie that a scattering makes.
-/

namespace SsaDebugInfo

open Act Store

variable {s t u : Store}

/-! ## Nodes that come -/

/-- Nodes stay as they are, and those that come are of some sort. -/
def Store.AddsNodes (added : Node → Prop) (s t : Store) : Prop :=
  ∀ (n : NodeId) (o : Node), t.get? n = some o → s.get? n = some o ∨ added o

section AddsNodes

variable {added : Node → Prop}

instance : IsPreorder Store (AddsNodes added) where
  refl _ _ _ h := .inl h
  trans _ _ _ hst htu n o h := by
    rcases htu n o h with h | h
    · exact hst n o h
    · exact .inr h

/-- Nodes that come, and those that a node becomes, are within the scope of an action. -/
theorem Act.Only.addsNodes {α : Type} {act : Act α}
    (h : act.Only (Touches { places := true, nodes := added })) : act.Only (AddsNodes added) :=
  fun s => (h s).preserves (P := s.AddsNodes added)
    (fun ht htouch => trans_of (AddsNodes added) ht fun _ _ => htouch.node) (refl_of _ s)

end AddsNodes

/-- Describing an element makes the expression for its piece. -/
theorem addsNodes_scatterOne (var loc : Slot) (width : Int) (piece : ValueId × Int)
    {added : Node → Prop} (hadded : ∀ n : Node, n.elements? = none → added n)
    (hpiece : added (.expression (Expression.ofBitPiece piece.2 width))) :
    (scatterOne var loc width piece).Only (AddsNodes added) := by
  have hhandle : ∀ n : Node, n.handleOf?.isSome = true → added n := by
    intro n hn
    refine hadded n ?_
    cases n with
    | expression elements => cases hn
    | _ => rfl
  exact (touches_scatterOne rfl hhandle hpiece).addsNodes

/-! ## Sizes -/

/-- Only layouts differ. -/
def Store.LayoutsDiffer (s t : Store) : Prop :=
  ∃ layouts, t = { s with layouts }

instance : IsPreorder Store LayoutsDiffer where
  refl s := ⟨s.layouts, rfl⟩
  trans := by
    rintro s _ _ ⟨_, rfl⟩ ⟨layouts, rfl⟩
    exact ⟨layouts, rfl⟩

/-- Layouts remember the sizes that they are asked for. -/
theorem layoutsDiffer_sizeForRecord (r : ValueId) (type : Ty) :
    (sizeForRecord r type).Only LayoutsDiffer :=
  only_sizeForRecord (fun _ _ _ => ⟨_, rfl⟩) r type

theorem Store.LayoutsDiffer.chain (h : s.LayoutsDiffer t) (slot : Slot) :
    t.chain slot = s.chain slot := by
  obtain ⟨layouts, rfl⟩ := h
  have hwithin : ∀ n slot, ({ s with layouts } : Store).chainWithin n slot =
      s.chainWithin n slot := by
    intro n
    induction n with
    | zero => exact fun _ => rfl
    | succ n ih =>
      intro slot
      unfold chainWithin
      simp only [ih]
      rfl
  exact hwithin _ slot

/-! ## Scattering -/

/-- The bit pieces that a scattering makes are those of the insertions that build the vector. If the
vector is described by a bit piece, each of them ends within that piece; it starts within it exactly
if the place that its index stands for does not lie before the vector. -/
theorem scatter_pieces {slot : Slot} {r : ValueId} {binding : Binding} {n : NodeId}
    {piece : Expression.BitPiece} {elements : List Int}
    (hscatter : (scatter slot).run s = (.ok (), t))
    (hfind : (findRecord slot).run s = (.ok (some r), u))
    (hbinding : (u.get? r).bind Value.binding? = some binding)
    (hpiece : u.parentPiece binding.expression = .ok (some piece))
    (hnew : s.get? n = none) (hn : (t.get? n).bind Node.elements? = some elements) :
    ∃ inserts insert index o width, u.chain slot = .ok inserts ∧ insert ∈ inserts ∧
      u.elementIndex insert = .ok index ∧ o = piece.offset + index * width ∧
      elements = Expression.ofBitPiece o width ∧ o + width ≤ piece.offset + piece.size ∧
      (piece.offset ≤ o ↔ 0 ≤ index * width) := by
  -- nothing comes unless the record of a vector is scattered
  have hsame : s ≠ t := by
    rintro rfl
    rw [hnew] at hn
    cases hn
  obtain ⟨_, _, ⟨⟩, hscatter⟩ := run_bind_ok hscatter
  split at hscatter
  · exact absurd (Prod.mk.inj hscatter).2 hsame
  split at hscatter
  · obtain ⟨_, _, hfind', hscatter⟩ := run_bind_ok hscatter
    obtain ⟨⟨⟩, rfl⟩ := Prod.mk.inj (hfind'.symm.trans hfind)
    obtain ⟨width, v, hsize, hscatter⟩ := run_bind_ok hscatter
    have huv : Store.LayoutsDiffer _ v := ((layoutsDiffer_sizeForRecord _ _).ends _).ok hsize
    obtain ⟨binding', hbinding', hscatter⟩ := run_ask_bind_ok hscatter
    obtain ⟨loc, _, hscatter⟩ := run_ask_bind_ok hscatter
    obtain ⟨parent, hparent, hscatter⟩ := run_ask_bind_ok hscatter
    obtain ⟨inserts, hchain, hscatter⟩ := run_ask_bind_ok hscatter
    obtain ⟨offsets, hoffsets, hscatter⟩ := run_ask_bind_ok hscatter
    obtain ⟨_, w, hpieces, hlast⟩ := run_bind_ok hscatter
    -- measuring the elements leaves the record, its expression and the vector as they are
    have hsame : binding' = binding ∧ parent = some piece := by
      obtain ⟨layouts, rfl⟩ := huv
      obtain rfl : binding = binding' :=
        Option.some_inj.mp (hbinding.symm.trans (found_eq_ok.mp hbinding'))
      exact ⟨rfl, Except.ok.inj (hparent.symm.trans hpiece)⟩
    obtain ⟨rfl, rfl⟩ := hsame
    let added (o : Node) : Prop := o.elements? = none ∨
      ∃ p ∈ inserts.zip offsets, o = .expression (Expression.ofBitPiece p.2 width)
    have hadds : s.AddsNodes added t := by
      have hsu : s.AddsNodes added _ := ((touches_findRecord slot).addsNodes.ends _).ok hfind
      have huv : Store.AddsNodes added _ v :=
        ((touches_sizeForRecord _ _).addsNodes.ends _).ok hsize
      have hvw : v.AddsNodes added w := ((only_forM fun p hp => addsNodes_scatterOne _ _ width p
        (fun _ => .inl) (.inr ⟨p, hp, rfl⟩)).ends _).ok hpieces
      have hwt : w.AddsNodes added t := (((only_ask _).bind fun _ =>
        (touches_record _).addsNodes).ends _).ok hlast
      exact trans_of _ hsu (trans_of _ huv (trans_of _ hvw hwt))
    obtain ⟨o, ho, helements⟩ := Option.bind_eq_some_iff.mp hn
    rcases hadds n o ho with hold | hnone | ⟨p, hp, rfl⟩
    · rw [hnew] at hold
      cases hold
    · rw [hnone] at helements
      cases helements
    · obtain ⟨index, hindex, hoffset, hend⟩ := pieceOffset_spec (ok_of_mem_zip hoffsets p hp)
      refine ⟨inserts, p.1, index, p.2, width, (huv.chain slot).symm.trans hchain,
        (List.of_mem_zip hp).1, ?_, hoffset, (Option.some_inj.mp helements).symm, hend, by omega⟩
      obtain ⟨layouts, rfl⟩ := huv
      exact hindex
  · exact absurd (Prod.mk.inj hscatter).2 hsame

namespace Script.Session

/-- A vector of four numbers that is built by two insertions, at given indices; it is described by
the 128 bits of a variable that follow the first 64. -/
def describedWithin (first second : Int) : List Command :=
  [.run (.make (.argument "v" (.vector 4 (.int 32)))) (some "v") none,
   .run (.make (.argument "x" (.int 32))) (some "x") none,
   .run (.make (.block "entry" [])) (some "entry") none,
   .run (.make (.constant (.integer first) (.int 32) none)) (some "i") none,
   .run (.make (.constant (.integer second) (.int 32) none)) (some "j") none,
   .run (.make (.instruction (.insertElement (some "v") (some "x") (some "i")) "w" none))
     (some "w") (some "entry"),
   .run (.make (.instruction (.insertElement (some "w") (some "x") (some "j")) "z" none))
     (some "z") (some "entry"),
   .run (.metadata (.localVariable "var" none none 1 0)) (some "var") none,
   .run (.metadata (.expression (Expression.ofBitPiece 64 128))) (some "piece") none,
   .run (.make (.bind (some "z") (some "var") (some "piece") none 0 (.beside none (some "z"))))
     (some "record") none]

/-- The record of the vector, value 6, is value 8. Scattering it makes two pieces of 32 bits: one
for each insertion, the place of which follows from its index. -/
theorem scatter_pieces_describedWithin :
    Reachable {} (runAll [] {} (describedWithin 1 0)).1 ∧
      ∃ (t u : Store) (inserts : List ValueId) (insert : ValueId) (index : Int),
        (scatter (.ofValue ⟨6⟩)).run (runAll [] {} (describedWithin 1 0)).1.store = (.ok (), t) ∧
        (findRecord (.ofValue ⟨6⟩)).run (runAll [] {} (describedWithin 1 0)).1.store =
          (.ok (some ⟨8⟩), u) ∧
        (t.get? (⟨5⟩ : NodeId)).bind Node.elements? = some (Expression.ofBitPiece 96 32) ∧
        u.chain (.ofValue ⟨6⟩) = .ok inserts ∧ insert ∈ inserts ∧
        u.elementIndex insert = .ok index ∧ (96 : Int) = 64 + index * 32 := by
  have hstart : ((scatter (.ofValue ⟨6⟩)).run
        (runAll [] {} (describedWithin 1 0)).1.store).1 = .ok () ∧
      ((findRecord (.ofValue ⟨6⟩)).run (runAll [] {} (describedWithin 1 0)).1.store).1 =
        .ok (some ⟨8⟩) ∧
      (((findRecord (.ofValue ⟨6⟩)).run (runAll [] {} (describedWithin 1 0)).1.store).2.get?
        (⟨8⟩ : ValueId)).bind Value.binding? = some ⟨.ofNode ⟨0⟩, .ofNode ⟨1⟩, 0⟩ ∧
      ((findRecord (.ofValue ⟨6⟩)).run
        (runAll [] {} (describedWithin 1 0)).1.store).2.parentPiece (.ofNode ⟨1⟩) =
          .ok (some ⟨64, 128⟩) ∧
      ((runAll [] {} (describedWithin 1 0)).1.store.get? (⟨5⟩ : NodeId)).isNone = true ∧
      (((scatter (.ofValue ⟨6⟩)).run (runAll [] {} (describedWithin 1 0)).1.store).2.get?
        (⟨5⟩ : NodeId)).bind Node.elements? = some (Expression.ofBitPiece 96 32) := by
    decide +kernel
  obtain ⟨hscatter, hfind, hbinding, hpiece, hnew, hn⟩ := hstart
  obtain ⟨inserts, insert, index, o, width, hchain, hmem, hindex, hoffset, helements, _, _⟩ :=
    scatter_pieces (run_eq_ok hscatter) (run_eq_ok hfind) hbinding hpiece
      (Option.isNone_iff_eq_none.mp hnew) hn
  obtain ⟨rfl, rfl⟩ : 96 = o ∧ 32 = width := by simpa [Expression.ofBitPiece] using helements
  exact ⟨reachable_runAll .new (by decide +kernel), _, _, inserts, insert, index,
    run_eq_ok hscatter, run_eq_ok hfind, hn, hchain, hmem, hindex, hoffset⟩

/-- With an index of -1, the scattering succeeds, and one of its pieces starts before the piece that
the vector is described by. -/
theorem scatter_starts_before_piece :
    Reachable {} (runAll [] {} (describedWithin (-1) 0)).1 ∧
      (runAll [] {} (describedWithin (-1) 0)).1.store.parentPiece (.ofNode ⟨1⟩) =
        .ok (some ⟨64, 128⟩) ∧
      ((scatter (.ofValue ⟨6⟩)).run (runAll [] {} (describedWithin (-1) 0)).1.store).1 = .ok () ∧
      ((runAll [] {} (describedWithin (-1) 0)).1.store.get? (⟨5⟩ : NodeId)).isNone = true ∧
      (((scatter (.ofValue ⟨6⟩)).run (runAll [] {} (describedWithin (-1) 0)).1.store).2.get?
        (⟨5⟩ : NodeId)).bind Node.elements? = some (Expression.ofBitPiece 32 32) ∧
      ¬ (64 : Int) ≤ 32 :=
  ⟨reachable_runAll .new (by decide +kernel), by decide +kernel⟩

end Script.Session

end SsaDebugInfo
