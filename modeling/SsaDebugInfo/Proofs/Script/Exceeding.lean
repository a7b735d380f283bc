import SsaDebugInfo.Proofs.Records.Exceeding
import SsaDebugInfo.Proofs.Script.Pieces

/-!
# Scattering within a piece, or not at all

A vector that is described by a bit piece may be built by insertions at any indices. Whether its
elements end within the piece decides whether its record can be scattered, and if one does not, it
is as if the scattering had not been asked for. What is told of such an element are numbers, and a
number that is too long to be written cannot be told.

- `Reachable.scatter_excess_iff`: when a scattering faults so, what it leaves, and what it tells of.
- `scatter_longIndex_unexplained`: an element of which it cannot be told where it lies.
-/

namespace SsaDebugInfo.Script.Session

open Act Store

variable {d : Discipline} {session : Session} {v r : ValueId} {u : Store}

/-- Let a vector have a record and be built by insertions at numbers, and let its elements have a
size. Scattering tells of an element outside the piece of the vector if and only if the record
describes a bit piece, some element ends behind it, and the numbers that are to be told of the first
such insertion, on the way from the last one back, are short enough to be written. If an element
ends behind the piece, scattering faults in any case, with a number that cannot be written if not
so, and nothing has come or changed, but for contexts that have been fixed and sizes that are
remembered. A fault that tells of an element tells of that first insertion. -/
theorem Reachable.scatter_excess_iff (h : Reachable d session) {o : Value} {type : Ty}
    {width : Int} {binding : Binding} {links : List ValueId} {index : ValueId → Int}
    (ho : session.store.get? v = some o) (hinsert : o.isInsertElement = true)
    (htype : o.type.vectorElement? = some type)
    (hfind : (findRecord (.ofValue v)).run session.store = (.ok (some r), u))
    (hwidth : ((session.store.layoutFor r).sizeInBits type).1 = .ok width)
    (hbinding : (session.store.get? r).bind Value.binding? = some binding)
    (hbuilds : session.store.Builds (.ofValue v) links)
    (hindex : ∀ link ∈ links, session.store.elementIndex link = .ok (index link)) :
    ((∃ f t, (scatter (.ofValue v)).run session.store = (.error f, t) ∧ f.isExcess = true) ↔
      ∃ piece before link after,
        session.store.parentPiece binding.expression = .ok (some piece) ∧
        links = before ++ link :: after ∧
        (∀ l ∈ before, index l * width + width ≤ piece.size) ∧
        piece.size < index link * width + width ∧
        [index link, width, index link * width, piece.size].all Text.Numeral.isWritable = true) ∧
    (∀ piece, session.store.parentPiece binding.expression = .ok (some piece) →
      ∀ link ∈ links, piece.size < index link * width + width →
        ∃ f t, (scatter (.ofValue v)).run session.store = (.error f, t) ∧
          (f.isExcess = true ∨ f = .notANumeral) ∧
          session.store.Untouched t ∧ session.store.Unaltered t) ∧
    ∀ f t, (scatter (.ofValue v)).run session.store = (.error f, t) → f.isExcess = true →
      session.store.Untouched t ∧ session.store.Unaltered t ∧
        ∃ piece before link after text hwritable,
          session.store.parentPiece binding.expression = .ok (some piece) ∧
          links = before ++ link :: after ∧
          (∀ l ∈ before, index l * width + width ≤ piece.size) ∧
          piece.size < index link * width + width ∧
          session.store.operandText link = .ok text ∧
          f = .exceedsPiece
            ⟨index link, text, width, index link * width, piece.size, hwritable⟩ := by
  have hs := h.sound.store
  have hends := scatter_exceeds hs ho hinsert htype hfind hwidth hbinding hbuilds hindex
  -- a fault that is explained is the one that planning finds
  have hexcess : ∀ f t, (scatter (.ofValue v)).run session.store = (.error f, t) →
      f.isExcess = true → session.store.Untouched t ∧
        session.store.FirstExceeding binding.expression width index links f := by
    intro f t hrun hf
    rcases hends.error hrun with ⟨hsilent, _⟩ | hfirst
    · exact absurd hsilent (Fault.message_of_isExcess hf)
    · exact hfirst
  -- and planning finds one as soon as an element ends behind the piece
  have hfaults : ∀ piece, session.store.parentPiece binding.expression = .ok (some piece) →
      ∀ link ∈ links, piece.size < index link * width + width →
        ∃ f t, (scatter (.ofValue v)).run session.store = (.error f, t) ∧
          session.store.Untouched t ∧
          session.store.FirstExceeding binding.expression width index links f := by
    intro piece hpiece link hlink hexceeds
    have hnot : ¬ session.store.Fits binding.expression width index links := fun hfits =>
      Int.not_lt.mpr (hfits piece hpiece link hlink) hexceeds
    rcases hrun : (scatter (.ofValue v)).run session.store with ⟨⟨f⟩ | ⟨⟩, t⟩
    · rcases hends.error hrun with ⟨_, hfits⟩ | hfirst
      · exact absurd hfits hnot
      · exact ⟨f, t, rfl, hfirst⟩
    · exact absurd (hends.ok hrun) hnot
  refine ⟨⟨?_, ?_⟩, fun piece hpiece link hlink hexceeds => ?_, fun f t hrun hf => ?_⟩
  · rintro ⟨f, t, hrun, hf⟩
    obtain ⟨piece, link, text, hfirst, _, rfl⟩ := (hexcess f t hrun hf).2
    obtain ⟨before, after, hsplit, hbefore⟩ := hfirst.split
    exact ⟨piece, before, link, after, hfirst.parent, hsplit, hbefore, hfirst.exceeds,
      Fault.isExcess_ofExcess.mp hf⟩
  · rintro ⟨piece, before, link, after, hpiece, hsplit, hbefore, hexceeds, hwritable⟩
    have hbeyond : session.store.FirstBeyond binding.expression width index links piece link :=
      ⟨hpiece, ⟨before, after, hsplit, hbefore⟩, hexceeds⟩
    obtain ⟨f, t, hrun, _, piece', link', text, hfirst, _, rfl⟩ :=
      hfaults piece hpiece link hbeyond.mem hexceeds
    obtain ⟨rfl, rfl⟩ := hbeyond.unique hfirst
    exact ⟨_, t, hrun, Fault.isExcess_ofExcess.mpr hwritable⟩
  · obtain ⟨f, t, hrun, huntouched, piece', link', text, _, _, rfl⟩ :=
      hfaults piece hpiece link hlink hexceeds
    refine ⟨_, t, hrun, ?_, huntouched, huntouched.intact.unaltered hs⟩
    rw [Fault.isExcess_ofExcess]
    exact or_iff_not_imp_left.mpr Fault.ofExcess_of_not_writable
  · obtain ⟨huntouched, piece, link, text, hfirst, htext, rfl⟩ := hexcess f t hrun hf
    obtain ⟨before, after, hsplit, hbefore⟩ := hfirst.split
    have hwritable := Fault.isExcess_ofExcess.mp hf
    exact ⟨huntouched, huntouched.intact.unaltered hs, piece, before, link, after, text, hwritable,
      hfirst.parent, hsplit, hbefore, hfirst.exceeds, htext, Fault.ofExcess_of_writable hwritable⟩

/-- Of the two insertions, values 6 and 5, the second is at an index at which its 32 bits end behind
the piece of 128 bits. -/
theorem scatter_excess_describedWithin :
    Reachable {} (runAll [] {} (describedWithin 4 0)).1 ∧
      ∃ t, (scatter (.ofValue ⟨6⟩)).run (runAll [] {} (describedWithin 4 0)).1.store =
          (.error (.ofExcess 4 "<4 x i32> %w" 32 128 128), t) ∧
        (Fault.ofExcess 4 "<4 x i32> %w" 32 128 128).isExcess = true ∧
        (runAll [] {} (describedWithin 4 0)).1.store.Untouched t := by
  have h : Reachable {} (runAll [] {} (describedWithin 4 0)).1 :=
    reachable_runAll .new (by decide +kernel)
  let index (link : ValueId) : Int := if link = ⟨5⟩ then 4 else 0
  have hstart : ((findRecord (.ofValue ⟨6⟩)).run
        (runAll [] {} (describedWithin 4 0)).1.store).1 = .ok (some ⟨8⟩) ∧
      (runAll [] {} (describedWithin 4 0)).1.store.chain (.ofValue ⟨6⟩) = .ok [⟨6⟩, ⟨5⟩] ∧
      (∀ link ∈ [(⟨6⟩ : ValueId), ⟨5⟩],
        (runAll [] {} (describedWithin 4 0)).1.store.elementIndex link = .ok (index link)) ∧
      (((runAll [] {} (describedWithin 4 0)).1.store.get? (⟨6⟩ : ValueId)).bind fun o =>
        o.type.vectorElement?.map fun type => (o.isInsertElement,
          (((runAll [] {} (describedWithin 4 0)).1.store.layoutFor ⟨8⟩).sizeInBits type).1)) =
        some (true, .ok 32) ∧
      ((runAll [] {} (describedWithin 4 0)).1.store.get? (⟨8⟩ : ValueId)).bind Value.binding? =
        some ⟨.ofNode ⟨0⟩, .ofNode ⟨1⟩, 0⟩ ∧
      (runAll [] {} (describedWithin 4 0)).1.store.parentPiece (.ofNode ⟨1⟩) =
        .ok (some ⟨64, 128⟩) ∧
      ((scatter (.ofValue ⟨6⟩)).run (runAll [] {} (describedWithin 4 0)).1.store).1 =
        .error (.ofExcess 4 "<4 x i32> %w" 32 128 128) := by
    decide +kernel
  obtain ⟨hfind, hchain, hindex, hvector, hbinding, hparent, hf⟩ := hstart
  obtain ⟨o, ho, hvector⟩ := Option.bind_eq_some_iff.mp hvector
  obtain ⟨type, htype, hvector⟩ := Option.map_eq_some_iff.mp hvector
  obtain ⟨hinsert, hwidth⟩ := Prod.mk.inj hvector
  obtain ⟨hiff, _, hfault⟩ := Reachable.scatter_excess_iff h ho hinsert htype (run_eq_ok hfind)
    hwidth hbinding (chain_eq_ok.mp hchain) hindex
  obtain ⟨f, t, hrun, hexcess⟩ := hiff.mpr
    ⟨_, [⟨6⟩], ⟨5⟩, [], hparent, rfl, by decide, by decide, by decide +kernel⟩
  rw [hrun] at hf
  obtain rfl : f = .ofExcess 4 "<4 x i32> %w" 32 128 128 := Except.error.inj hf
  exact ⟨h, t, hrun, hexcess, (hfault _ _ hrun hexcess).1⟩

/-- The greatest of the numbers with as many digits as a numeral may have. -/
def longestIndex : Int :=
  (Nat.pow 10 Text.Numeral.maxDigits - 1 : Nat)

/-- The second insertion, value 5, is at the greatest index that can be given. Its 32 bits end
behind the piece of 128 bits that the record, value 8, describes. But it cannot be told at which
offset they start, so that the fault is none of an element outside its piece. -/
theorem scatter_longIndex_unexplained :
    Reachable {} (runAll [] {} (describedWithin longestIndex 0)).1 ∧
      ((findRecord (.ofValue ⟨6⟩)).run
        (runAll [] {} (describedWithin longestIndex 0)).1.store).1 = .ok (some ⟨8⟩) ∧
      (((runAll [] {} (describedWithin longestIndex 0)).1.store.get? (⟨8⟩ : ValueId)).bind
        Value.binding?).map (·.expression) = some (.ofNode ⟨1⟩) ∧
      (runAll [] {} (describedWithin longestIndex 0)).1.store.parentPiece (.ofNode ⟨1⟩) =
        .ok (some ⟨64, 128⟩) ∧
      (runAll [] {} (describedWithin longestIndex 0)).1.store.chain (.ofValue ⟨6⟩) =
        .ok [⟨6⟩, ⟨5⟩] ∧
      (runAll [] {} (describedWithin longestIndex 0)).1.store.elementIndex ⟨6⟩ = .ok 0 ∧
      (runAll [] {} (describedWithin longestIndex 0)).1.store.elementIndex ⟨5⟩ =
        .ok longestIndex ∧
      (((runAll [] {} (describedWithin longestIndex 0)).1.store.get? (⟨6⟩ : ValueId)).bind fun o =>
        o.type.vectorElement?.map fun type => (o.isInsertElement,
          (((runAll [] {} (describedWithin longestIndex 0)).1.store.layoutFor ⟨8⟩).sizeInBits
            type).1)) = some (true, .ok 32) ∧
      128 < longestIndex * 32 + 32 ∧
      ((scatter (.ofValue ⟨6⟩)).run
        (runAll [] {} (describedWithin longestIndex 0)).1.store).1 = .error .notANumeral ∧
      Fault.notANumeral.isExcess = false := by
  have h : Reachable {} (runAll [] {} (describedWithin longestIndex 0)).1 :=
    reachable_runAll .new (by decide +kernel)
  have hvector : (runAll [] {} (describedWithin longestIndex 0)).1.store.chain (.ofValue ⟨6⟩) =
        .ok [⟨6⟩, ⟨5⟩] ∧
      (runAll [] {} (describedWithin longestIndex 0)).1.store.elementIndex ⟨6⟩ = .ok 0 ∧
      (runAll [] {} (describedWithin longestIndex 0)).1.store.elementIndex ⟨5⟩ =
        .ok longestIndex := by
    decide +kernel
  obtain ⟨hchain, hfirst, hlong⟩ := hvector
  refine ⟨h, ?found, ?described, ?piece, hchain, hfirst, hlong, ?width, ?outside, ?fault, rfl⟩
  case found => decide +kernel
  case described => decide +kernel
  case piece => decide +kernel
  case width => decide +kernel
  case outside => decide +kernel
  case fault => decide +kernel

end SsaDebugInfo.Script.Session
