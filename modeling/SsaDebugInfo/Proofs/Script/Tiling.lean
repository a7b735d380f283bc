import SsaDebugInfo.Proofs.Records.Tiling
import SsaDebugInfo.Proofs.Script.Leads
import SsaDebugInfo.Proofs.Script.Pieces

/-!
# The pieces of a scattered vector

In a session, whatever has been measured before, a vector is as long as its elements together. So
the pieces that a scattering adds leave out no bit of the vector, and go nowhere beyond it, if there
is one for each element; and whatever elements are inserted, no bit is described by two of them.

- `Reachable.coherentLayouts`: what layouts remember in a session.
- `Reachable.scatter_tiles`: the pieces that a scattering adds.
-/

namespace SsaDebugInfo

open Act Store

variable {s : Store}

theorem Ty.exists_vector_of_vectorElement? {t element : Ty} (h : t.vectorElement? = some element) :
    ∃ count, t = .vector count element := by
  cases t with
  | vector count element' =>
    obtain rfl := Option.some_inj.mp h
    exact ⟨count, rfl⟩
  | _ => cases h

/-- The size of a vector under the layout for a record. -/
theorem Store.CoherentLayouts.layoutFor (h : s.CoherentLayouts) (r : ValueId) :
    Layout.Coherent (s.layoutFor r).cache := by
  unfold Store.layoutFor
  dsimp only
  cases hlayout : (((s.functionOf? r).bind fun f => (s.get? f).bind Function.module).bind fun m =>
      (s.get? m).bind fun m => s.get? m.layout) with
  | none => exact Layout.coherent_nil
  | some layout =>
    obtain ⟨m, _, hm⟩ := Option.bind_eq_some_iff.mp hlayout
    obtain ⟨o, _, ho⟩ := Option.bind_eq_some_iff.mp hm
    exact h o.layout layout ho

namespace Script.Session

variable {d : Discipline} {session : Session} {v r : ValueId} {t u : Store}

/-- What layouts remember is coherent in every session. -/
theorem Reachable.coherentLayouts (h : Reachable d session) : session.store.CoherentLayouts :=
  h.touching coherentLayouts_initial (fun hs htouch => htouch.coherentLayouts hs)
    fun _ hs => hs.collect _

/-- Let the record of a vector, which is built by insertions at numbers, be scattered. Each
insertion gets one new record, for a piece that is as wide as an element and lies where the index
says, from the start of the piece that the vector is described by, if it is. The pieces of different
indices have no bit in common. If as many elements are inserted as the vector has, each at an index
of its own, the pieces tile the bits that the vector takes under the layout. -/
theorem Reachable.scatter_tiles (h : Reachable d session) {o : Value} {type : Ty} {count : Int}
    {width : Int} {binding : Binding} {parent : Option Expression.BitPiece} {links : List ValueId}
    {index : ValueId → Int} (ho : session.store.get? v = some o)
    (hinsert : o.isInsertElement = true) (htype : o.type = .vector count type)
    (hfind : (findRecord (.ofValue v)).run session.store = (.ok (some r), u))
    (hwidth : ((session.store.layoutFor r).sizeInBits type).1 = .ok width)
    (hbinding : (session.store.get? r).bind Value.binding? = some binding)
    (hparent : session.store.parentPiece binding.expression = .ok parent)
    (hbuilds : session.store.Builds (.ofValue v) links)
    (hindex : ∀ link ∈ links, session.store.elementIndex link = .ok (index link))
    (hrun : (scatter (.ofValue v)).run session.store = (.ok (), t)) :
    ∃ records, records.Nodup ∧
      (∀ r', r' ∈ records ↔ t.isRecord r' = true ∧ ¬ session.store.Has (.value r')) ∧
      List.Forall₂ (fun link r' =>
        t.pieceOf? r' = some (elementPiece (pieceStart parent) width (index link))) links records ∧
      (∀ p ∈ links.zip records, ∀ q ∈ links.zip records, index p.1 ≠ index q.1 →
        ∀ piece other, t.pieceOf? p.2 = some piece → t.pieceOf? q.2 = some other →
          piece.Apart other) ∧
      (count = links.length → (links.map index).Perm ((List.range links.length).map Int.ofNat) →
        ∃ total, ((session.store.layoutFor r).sizeInBits o.type).1 = .ok total ∧
          Tiles (records.filterMap t.pieceOf?) (pieceStart parent) total) := by
  have helement : o.type.vectorElement? = some type := congrArg Ty.vectorElement? htype
  obtain ⟨loc, records, hscattered⟩ := scatter_scattered h.sound.store ho hinsert helement hfind
    hwidth hbinding hparent hbuilds hindex hrun
  have hpieces := hscattered.pieceOf?
  refine ⟨records, hscattered.once, fun _ => hscattered.mem_records, hpieces, ?_, ?_⟩
  · intro p hp q hq hne piece other hpiece hother
    obtain rfl := Option.some_inj.mp ((List.forall₂_zip hpieces hp).symm.trans hpiece)
    obtain rfl := Option.some_inj.mp ((List.forall₂_zip hpieces hq).symm.trans hother)
    exact apart_elementPiece _ width hne
  · intro hcount hindices
    refine ⟨links.length * width, ?_, ?_⟩
    · rw [htype, hcount]
      exact Layout.sizeInBits_vector (h.coherentLayouts.layoutFor r) hwidth
    · have htiles := tiles_elementPiece (pieceStart parent) width hindices
      rw [List.map_map] at htiles
      rw [filterMap_of_forall₂ hpieces]
      exact htiles

/-- A vector of two numbers of 12 bits that is built by two insertions, the second element first; it
is described by the 24 bits of a variable that follow the first 8. -/
def describedPair : List Command :=
  [.run (.make (.argument "v" (.vector 2 (.int 12)))) (some "v") none,
   .run (.make (.argument "x" (.int 12))) (some "x") none,
   .run (.make (.block "entry" [])) (some "entry") none,
   .run (.make (.constant (.integer 1) (.int 32) none)) (some "i") none,
   .run (.make (.constant (.integer 0) (.int 32) none)) (some "j") none,
   .run (.make (.instruction (.insertElement (some "v") (some "x") (some "i")) "w" none))
     (some "w") (some "entry"),
   .run (.make (.instruction (.insertElement (some "w") (some "x") (some "j")) "z" none))
     (some "z") (some "entry"),
   .run (.metadata (.localVariable "var" none none 1 0)) (some "var") none,
   .run (.metadata (.expression (Expression.ofBitPiece 8 24))) (some "piece") none,
   .run (.make (.bind (some "z") (some "var") (some "piece") none 0 (.beside none (some "z"))))
     (some "record") none]

/-- The two new records describe the bits from 8 on and those from 20 on, and all bits from 8 up to
32 are in one of the two. -/
theorem scatter_tiles_describedPair :
    Reachable {} (runAll [] {} describedPair).1 ∧
      ∃ t r₀ r₁, (scatter (.ofValue ⟨6⟩)).run (runAll [] {} describedPair).1.store = (.ok (), t) ∧
        t.pieceOf? r₀ = some ⟨8, 12⟩ ∧ t.pieceOf? r₁ = some ⟨20, 12⟩ ∧
        Tiles [⟨8, 12⟩, ⟨20, 12⟩] 8 24 := by
  have h : Reachable {} (runAll [] {} describedPair).1 := reachable_runAll .new (by decide +kernel)
  let index (link : ValueId) : Int := if link = ⟨5⟩ then 1 else 0
  have hstart : ((findRecord (.ofValue ⟨6⟩)).run (runAll [] {} describedPair).1.store).1 =
        .ok (some ⟨8⟩) ∧
      (runAll [] {} describedPair).1.store.chain (.ofValue ⟨6⟩) = .ok [⟨6⟩, ⟨5⟩] ∧
      (∀ link ∈ [(⟨6⟩ : ValueId), ⟨5⟩],
        (runAll [] {} describedPair).1.store.elementIndex link = .ok (index link)) ∧
      ((runAll [] {} describedPair).1.store.get? (⟨8⟩ : ValueId)).bind Value.binding? =
        some ⟨.ofNode ⟨0⟩, .ofNode ⟨1⟩, 0⟩ ∧
      (runAll [] {} describedPair).1.store.parentPiece (.ofNode ⟨1⟩) = .ok (some ⟨8, 24⟩) ∧
      ((scatter (.ofValue ⟨6⟩)).run (runAll [] {} describedPair).1.store).1 = .ok () ∧
      (((runAll [] {} describedPair).1.store.get? (⟨6⟩ : ValueId)).bind fun o =>
        o.type.vectorElement?.map fun type => (o.isInsertElement, o.type.print,
          (((runAll [] {} describedPair).1.store.layoutFor ⟨8⟩).sizeInBits type).1,
          (((runAll [] {} describedPair).1.store.layoutFor ⟨8⟩).sizeInBits o.type).1)) =
        some (true, "<2 x i12>", .ok 12, .ok 24) := by
    decide +kernel
  obtain ⟨hfind, hchain, hindex, hbinding, hparent, hrun, hvector⟩ := hstart
  obtain ⟨o, ho, hvector⟩ := Option.bind_eq_some_iff.mp hvector
  obtain ⟨type, helement, hvector⟩ := Option.map_eq_some_iff.mp hvector
  obtain ⟨hinsert, hvector⟩ := Prod.mk.inj hvector
  obtain ⟨hprint, hvector⟩ := Prod.mk.inj hvector
  obtain ⟨hwidth, hsize⟩ := Prod.mk.inj hvector
  obtain ⟨count, htype⟩ := Ty.exists_vector_of_vectorElement? helement
  -- the number of elements can be read off the written form
  obtain rfl : count = 2 := by
    rw [htype] at hprint
    exact (Ty.print_vector_inj (hprint.trans (show _ = (Ty.vector 2 (.int 12)).print by decide))).1
  obtain ⟨t, hrun⟩ : ∃ t, (scatter (.ofValue ⟨6⟩)).run (runAll [] {} describedPair).1.store =
    (.ok (), t) := ⟨_, run_eq_ok hrun⟩
  obtain ⟨records, _, _, hpieces, _, htiles⟩ := Reachable.scatter_tiles h ho hinsert htype
    (run_eq_ok hfind) hwidth hbinding hparent (chain_eq_ok.mp hchain) hindex hrun
  obtain ⟨total, htotal, htiles⟩ := htiles rfl (by decide)
  obtain rfl : total = 24 := Except.ok.inj (htotal.symm.trans hsize)
  obtain ⟨r₀, others, h₀, hothers, rfl⟩ := List.forall₂_cons_left_iff.mp hpieces
  obtain ⟨r₁, none, h₁, hnone, rfl⟩ := List.forall₂_cons_left_iff.mp hothers
  obtain rfl := List.forall₂_nil_left_iff.mp hnone
  rw [List.filterMap_cons_some h₀, List.filterMap_cons_some h₁] at htiles
  exact ⟨h, t, r₀, r₁, hrun, h₀, h₁, htiles⟩

end Script.Session

end SsaDebugInfo
