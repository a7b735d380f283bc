import SsaDebugInfo.Proofs.Act.Silent
import SsaDebugInfo.Proofs.Operands
import SsaDebugInfo.Proofs.Records.Scattering

/-!
# Elements that exceed the piece of their vector

A vector that is described by a bit piece cannot be scattered if one of its elements ends behind the
piece. This is found out while the scattering is planned, so that nothing has come or changed then,
and the fault tells of the first such insertion on the way from the last one back, if its numbers
are short enough to be written.

- `Untouched`: everything is as it was, but that contexts have been fixed and sizes remembered.
- `FirstBeyond`: the first insertion whose element ends behind the piece.
- `FirstExceeding`: the fault that tells of it.
- `planScatter_exceeds`, `scatter_exceeds`: planning faults so exactly if an insertion exceeds the
  piece, and scattering faults so exactly if planning does.
-/

namespace SsaDebugInfo

/-- Whether a fault tells of an element that lies outside the piece of its vector. -/
def Fault.isExcess : Fault → Bool
  | exceedsPiece .. => true
  | _ => false

/-- The fault of an element outside its piece tells of it if and only if the numbers that are to be
told are short enough. -/
theorem Fault.isExcess_ofExcess {index width offset size : Int} {insert : String} :
    (ofExcess index insert width offset size).isExcess = true ↔
      [index, width, offset, size].all Text.Numeral.isWritable = true := by
  by_cases h : [index, width, offset, size].all Text.Numeral.isWritable = true
  · rw [ofExcess_of_writable h]
    exact iff_of_true rfl h
  · rw [ofExcess_of_not_writable h]
    exact iff_of_false (fun hexcess => nomatch hexcess) h

/-- Such a fault is explained. -/
theorem Fault.message_of_isExcess {f : Fault} (h : f.isExcess = true) : f.message ≠ "" := by
  intro hmessage
  cases f with
  | exceedsPiece => exact absurd (String.append_eq_empty_iff.mp hmessage).1 (by decide)
  | _ => cases h

open Act Store

variable {s t u : Store} {slot : Slot} {r v x : ValueId}

/-! ## What planning touches -/

namespace Store

/-- The object is the same, up to its context, or to the sizes that it remembers. -/
def SameButKnown : ObjectRelation
  | .value, o, p => ∀ c, p.map ({ · with context := c }) = o.map ({ · with context := c })
  | .function, o, p => ∀ c, p.map ({ · with context := c }) = o.map ({ · with context := c })
  | .layout, o, p => p.map Layout.text = o.map Layout.text
  | _, o, p => p = o

theorem SameButKnown.refl (kind : Kind) (o : Option (Object kind)) : SameButKnown kind o o := by
  cases kind with
  | value => exact fun _ => rfl
  | function => exact fun _ => rfl
  | _ => exact rfl

theorem SameButKnown.trans (kind : Kind) (o p q : Option (Object kind))
    (hop : SameButKnown kind o p) (hpq : SameButKnown kind p q) : SameButKnown kind o q := by
  cases kind with
  | value => exact fun c => (hpq c).trans (hop c)
  | function => exact fun c => (hpq c).trans (hop c)
  | _ => exact Eq.trans hpq hop

/-- No object has come or gone, none has changed but for contexts that have been fixed and sizes
that layouts remember, and nothing has been written into the journal. -/
structure Untouched (s t : Store) : Prop extends s.Extends t where
  same : Pointwise SameButKnown s t
  journal : t.journal = s.journal

namespace Untouched

theorem refl (s : Store) : s.Untouched s :=
  ⟨.refl s, fun kind _ => SameButKnown.refl kind _, rfl⟩

theorem trans (hst : s.Untouched t) (htu : t.Untouched u) : s.Untouched u :=
  ⟨hst.toExtends.trans htu.toExtends, hst.same.trans SameButKnown.trans htu.same,
    htu.journal.trans hst.journal⟩

instance : IsPreorder Store Untouched where
  refl := refl
  trans _ _ _ := trans

theorem modify {kind : Kind} {id : Id kind} {f : Object kind → Object kind}
    (h : ∀ o, SameButKnown kind (some o) (some (f o))) : s.Untouched (s.modify id f) := by
  refine ⟨.modify id f, .modify SameButKnown.refl id fun o _ => h o, ?_⟩
  cases kind <;> rfl

theorem fixes : Act.Fixes Untouched where
  value _ _ _ := .modify fun _ _ => rfl
  function _ _ _ := .modify fun _ _ => rfl

/-- What is untouched is intact. -/
theorem intact (h : s.Untouched t) : s.Intact t := by
  refine ⟨h.toExtends, fun kind id => ?_⟩
  have hsame := h.same kind id
  cases kind with
  | value =>
    refine ⟨fun a ha => ?_, fun w hnone hw => ?_⟩
    · -- the value itself, whatever its context is now
      have hsame := hsame none
      rw [ha] at hsame
      obtain ⟨b, hb, hba⟩ := Option.map_eq_some_iff.mp hsame
      refine ⟨b.context, hb.trans (congrArg some ?_)⟩
      cases a
      cases b
      cases hba
      rfl
    · have hsame := hsame none
      rw [hnone, hw] at hsame
      cases hsame
  | node =>
    have hsame : t.get? id = s.get? id := hsame
    exact ⟨fun n hn => hsame.trans hn, fun n hnone hn =>
      nomatch hnone.symm.trans (hsame.symm.trans hn)⟩
  | function => exact hsame
  | module => exact hsame
  | _ => trivial

end Untouched

end Store

/-- Measuring a type remembers sizes, and touches nothing else. -/
theorem untouched_sizeForRecord (r : ValueId) (type : Ty) :
    (sizeForRecord r type).Only Untouched :=
  only_sizeForRecord (fun _ _ _ => .modify fun _ => rfl) r type

/-! ## The first element that exceeds the piece -/

namespace Store

/-- An insertion has a name, so that a message can tell of it. -/
theorem site?_of_isInsertElement {o : Value} (ho : o.isInsertElement = true) :
    ∃ site, o.site? = some site := by
  obtain ⟨_, shape, _, _⟩ := o
  cases shape with
  | instruction site => exact ⟨site, rfl⟩
  | _ => cases ho

/-- An insertion is written as its type and its name, whatever its context is. -/
theorem Intact.operandText (h : s.Intact t) {o : Value} (ho : s.get? x = some o)
    (hinsert : o.isInsertElement = true) :
    ∃ text, s.operandText x = .ok text ∧ t.operandText x = .ok text := by
  obtain ⟨site, hsite⟩ := site?_of_isInsertElement hinsert
  obtain ⟨c, ht⟩ := h.value ho
  have htext := operandText_of_site? (o := { o with context := c }) ht hsite
  exact ⟨_, operandText_of_site? ho hsite, htext⟩

/-- An element that ends behind the piece of the vector lies nowhere. -/
theorem pieceOffset_of_exceeds {width index : Int} {piece : Expression.BitPiece} {insert : ValueId}
    {text : String} (hindex : s.elementIndex insert = .ok index)
    (hexceeds : piece.size < index * width + width) (htext : s.operandText insert = .ok text) :
    s.pieceOffset width (some piece) insert =
      .error (.ofExcess index text width (index * width) piece.size) := by
  rw [pieceOffset_eq, hindex]
  show (if piece.size < index * width + width then _ else _ : Except Fault Int) = _
  rw [if_pos hexceeds, htext]
  rfl

/-- Every element ends within the piece of the vector, if the vector is described by a piece. -/
def Fits (s : Store) (expression : Slot) (width : Int) (index : ValueId → Int)
    (links : List ValueId) : Prop :=
  ∀ piece, s.parentPiece expression = .ok (some piece) →
    ∀ link ∈ links, index link * width + width ≤ piece.size

/-- The link is the first of the insertions, last one first, whose element ends behind the piece by
which the vector is described. -/
structure FirstBeyond (s : Store) (expression : Slot) (width : Int) (index : ValueId → Int)
    (links : List ValueId) (piece : Expression.BitPiece) (link : ValueId) : Prop where
  parent : s.parentPiece expression = .ok (some piece)
  split : ∃ before after, links = before ++ link :: after ∧
    ∀ l ∈ before, index l * width + width ≤ piece.size
  exceeds : piece.size < index link * width + width

/-- The fault is that of the first insertion whose element ends behind the piece. -/
def FirstExceeding (s : Store) (expression : Slot) (width : Int) (index : ValueId → Int)
    (links : List ValueId) (f : Fault) : Prop :=
  ∃ piece link text, s.FirstBeyond expression width index links piece link ∧
    s.operandText link = .ok text ∧
    f = .ofExcess (index link) text width (index link * width) piece.size

variable {expression : Slot} {width : Int} {index : ValueId → Int} {links : List ValueId}
  {f : Fault}

/-- The first insertion behind a piece is one of the chain. -/
theorem FirstBeyond.mem {piece : Expression.BitPiece} {link : ValueId}
    (h : s.FirstBeyond expression width index links piece link) : link ∈ links := by
  obtain ⟨before, after, rfl, _⟩ := h.split
  exact List.mem_append_right before List.mem_cons_self

/-- Where the program is intact, the same elements end within the piece. -/
theorem Intact.fits_iff (h : s.Intact t) (hexpression : s.HasIn expression) :
    t.Fits expression width index links ↔ s.Fits expression width index links := by
  unfold Fits
  rw [h.parentPiece hexpression]

/-- And a fault tells of the same insertion. -/
theorem Intact.firstExceeding (h : s.Intact t) (hexpression : s.HasIn expression)
    (hbuilds : s.Builds slot links) (hf : t.FirstExceeding expression width index links f) :
    s.FirstExceeding expression width index links f := by
  obtain ⟨piece, link, text, hfirst, htext, rfl⟩ := hf
  obtain ⟨o, ho, hinsert⟩ := hbuilds.insertion hfirst.mem
  obtain ⟨text', hs, ht⟩ := h.operandText ho hinsert
  obtain rfl : text' = text := Except.ok.inj (ht.symm.trans htext)
  exact ⟨piece, link, text', ⟨(h.parentPiece hexpression).symm.trans hfirst.parent, hfirst.split,
    hfirst.exceeds⟩, hs, rfl⟩

end Store

/-- Questions over a list end with the first that faults. -/
theorem mapM_eq_error {α β : Type} {f : α → Except Fault β} {g : α → β} {before after : List α}
    {a : α} {e : Fault} (hbefore : ∀ b ∈ before, f b = .ok (g b)) (ha : f a = .error e) :
    (before ++ a :: after).mapM f = .error e := by
  induction before with
  | nil =>
    show (a :: after).mapM f = .error e
    rw [List.mapM_cons, ha]
    rfl
  | cons b rest ih =>
    show (b :: (rest ++ a :: after)).mapM f = .error e
    rw [List.mapM_cons, hbefore b List.mem_cons_self,
      ih fun b' hb' => hbefore b' (List.mem_cons_of_mem b hb')]
    rfl

/-- If not everything in a list is as it should be, there is a first that is not. -/
theorem exists_first {α : Type} {p : α → Prop} {l : List α} (h : ¬ ∀ a ∈ l, p a) :
    ∃ before a after, l = before ++ a :: after ∧ (∀ b ∈ before, p b) ∧ ¬ p a := by
  induction l with
  | nil => exact absurd (fun _ ha => nomatch ha) h
  | cons a rest ih =>
    by_cases ha : p a
    · obtain ⟨before, b, after, rfl, hbefore, hb⟩ :=
        ih fun hrest => h (List.forall_mem_cons.mpr ⟨ha, hrest⟩)
      exact ⟨a :: before, b, after, rfl, List.forall_mem_cons.mpr ⟨ha, hbefore⟩, hb⟩
    · exact ⟨[], a, rest, rfl, fun _ hb => (nomatch hb), ha⟩

/-- There is one such first at most. -/
theorem first_unique {α : Type} {p : α → Prop} {before before' after after' : List α} {a a' : α}
    (hlists : before ++ a :: after = before' ++ a' :: after') (hbefore : ∀ b ∈ before, p b)
    (ha : ¬ p a) (hbefore' : ∀ b ∈ before', p b) (ha' : ¬ p a') : a = a' := by
  induction before generalizing before' with
  | nil =>
    cases before' with
    | nil => exact (List.cons.inj hlists).1
    | cons b rest => exact absurd (hbefore' a ((List.cons.inj hlists).1 ▸ List.mem_cons_self)) ha
  | cons b rest ih =>
    cases before' with
    | nil => exact absurd (hbefore a' ((List.cons.inj hlists).1 ▸ List.mem_cons_self)) ha'
    | cons b' rest' =>
      exact ih (List.cons.inj hlists).2 (fun c hc => hbefore c (List.mem_cons_of_mem b hc))
        fun c hc => hbefore' c (List.mem_cons_of_mem b' hc)

/-- The piece and the first element that ends behind it are determined. -/
theorem Store.FirstBeyond.unique {expression : Slot} {width : Int} {index : ValueId → Int}
    {links : List ValueId} {piece piece' : Expression.BitPiece} {link link' : ValueId}
    (h : s.FirstBeyond expression width index links piece link)
    (h' : s.FirstBeyond expression width index links piece' link') :
    piece = piece' ∧ link = link' := by
  obtain rfl := Option.some_inj.mp (Except.ok.inj (h.parent.symm.trans h'.parent))
  obtain ⟨before, after, hsplit, hbefore⟩ := h.split
  obtain ⟨before', after', hsplit', hbefore'⟩ := h'.split
  exact ⟨rfl, first_unique (hsplit.symm.trans hsplit') hbefore (Int.not_le.mpr h.exceeds) hbefore'
    (Int.not_le.mpr h'.exceeds)⟩

/-- The places of the elements are found, or the first that exceeds the piece is told of. -/
theorem mapM_pieceOffset {expression : Slot} {width : Int} {index : ValueId → Int}
    {links : List ValueId} {parent : Option Expression.BitPiece}
    (hparent : s.parentPiece expression = .ok parent) (hbuilds : s.Builds slot links)
    (hindex : ∀ link ∈ links, s.elementIndex link = .ok (index link)) :
    s.Fits expression width index links ∧ (∃ offsets,
        links.mapM (s.pieceOffset width parent) = .ok offsets) ∨
      ∃ f, links.mapM (s.pieceOffset width parent) = .error f ∧
        s.FirstExceeding expression width index links f := by
  let place (link : ValueId) : Int := pieceStart parent + index link * width
  by_cases hfits : s.Fits expression width index links
  · refine .inl ⟨hfits, links.map place, mapM_eq_ok fun link hlink => ?_⟩
    exact pieceOffset_of_fits (hindex link hlink) fun piece hpiece =>
      hfits piece (hpiece ▸ hparent) link hlink
  right
  obtain ⟨piece, hfits⟩ := not_forall.mp hfits
  obtain ⟨hpiece, hfits⟩ := Classical.not_imp.mp hfits
  obtain ⟨before, link, after, rfl, hbefore, hexceeds⟩ := exists_first hfits
  obtain rfl : parent = some piece := Except.ok.inj (hparent.symm.trans hpiece)
  have hexceeds : piece.size < index link * width + width := Int.not_le.mp hexceeds
  have hlink : link ∈ before ++ link :: after := List.mem_append_right before List.mem_cons_self
  obtain ⟨o, ho, hinsert⟩ := hbuilds.insertion hlink
  obtain ⟨site, hsite⟩ := site?_of_isInsertElement hinsert
  have htext := operandText_of_site? ho hsite
  have hplaces : ∀ l ∈ before, s.pieceOffset width (some piece) l = .ok (place l) := by
    intro l hl
    refine pieceOffset_of_fits (hindex l (List.mem_append_left _ hl)) fun piece' hpiece' => ?_
    obtain rfl := Option.some_inj.mp hpiece'
    exact hbefore l hl
  exact ⟨_, mapM_eq_error hplaces (pieceOffset_of_exceeds (hindex link hlink) hexceeds htext),
    piece, link, _, ⟨hparent, ⟨before, after, rfl, hbefore⟩, hexceeds⟩, htext, rfl⟩

/-! ## Planning -/

/-- What binds a variable is an instruction, with a location or none. -/
theorem instruction?_of_binding? {binding : Binding}
    (h : (s.get? r).bind Value.binding? = some binding) :
    ∃ loc, (s.instruction? r).map Instruction.loc = some loc := by
  obtain ⟨o, ho, hbinding⟩ := Option.bind_eq_some_iff.mp h
  obtain ⟨opcode, hopcode, _⟩ := Option.bind_eq_some_iff.mp hbinding
  obtain ⟨i, hi, _⟩ := Option.map_eq_some_iff.mp hopcode
  exact ⟨i.loc, by rw [instruction?, ho, Option.bind_some, hi]; rfl⟩

/-- Where the element has a size and each insertion an index, planning touches nothing. It answers
only if every element ends within the piece of the vector, and otherwise it faults with the first
insertion that does not; any other fault has no explanation. -/
theorem planScatter_exceeds (hs : s.Sound) {type : Ty} {width : Int} {binding : Binding}
    {links : List ValueId} {index : ValueId → Int}
    (hwidth : ((s.layoutFor r).sizeInBits type).1 = .ok width)
    (hbinding : (s.get? r).bind Value.binding? = some binding) (hbuilds : s.Builds slot links)
    (hindex : ∀ link ∈ links, s.elementIndex link = .ok (index link)) :
    (planScatter slot r type).Ends s
      (fun _ _ => s.Fits binding.expression width index links)
      fun f t => s.Untouched t ∧
        (f.message = "" ∧ s.Fits binding.expression width index links ∨
          s.FirstExceeding binding.expression width index links f) := by
  have hexpression := hs.closed.hasIn_expression hbinding
  obtain ⟨loc, hloc⟩ := instruction?_of_binding? hbinding
  have hsize := run_eq_ok ((sizeForRecord_answer (r := r) hs.closed type).trans hwidth)
  have huntouched := ((untouched_sizeForRecord r type).ends s).ok hsize
  have hintact := huntouched.intact
  refine ends_run_bind hsize ?_
  refine ends_answer_bind (found_eq_ok.mpr ((hintact.binding? r).trans hbinding)) ?_
  refine ends_answer_bind (found_eq_ok.mpr ((hintact.loc? r).trans hloc)) ?_
  refine ends_ask_bind (fun f hf => ⟨huntouched, .inl ⟨?_, ?_⟩⟩) fun parent hparent => ?_
  · exact Fault.message_of_isLack (silent_parentPiece _ _ f hf)
  · intro piece hpiece
    rw [hintact.parentPiece hexpression, hpiece] at hf
    cases hf
  have hbuilds' := hintact.builds_iff.mpr hbuilds
  refine ends_answer_bind (chain_eq_ok.mpr hbuilds') ?_
  have hindex' : ∀ link ∈ links, Store.elementIndex _ link = .ok (index link) := fun link hlink =>
    hintact.elementIndex hs.closed (hindex link hlink)
  -- either all elements fit, or the first that does not stops the planning
  rcases @mapM_pieceOffset _ slot _ width index links parent hparent hbuilds' hindex' with
    ⟨hfits, offsets, hoffsets⟩ | ⟨f, hf, hfirst⟩
  · exact ends_answer_bind hoffsets (ends_pure ((hintact.fits_iff hexpression).mp hfits))
  · refine ends_ask_bind (fun f' hf' => ?_) fun offsets hoffsets => ?_
    · obtain rfl : f = f' := Except.error.inj (hf.symm.trans hf')
      exact ⟨huntouched, .inr (hintact.firstExceeding hexpression hbuilds hfirst)⟩
    · cases hf.symm.trans hoffsets

/-! ## Scattering -/

/-- What has been planned is carried out without an explanation for a fault. -/
theorem silent_carryOut (plan : Plan) (r v : ValueId) : (plan.carryOut r v).Silent := by
  refine (silent_forM fun piece => silent_scatterOne _ _ _ piece).bind fun _ => ?_
  refine Act.Silent.bind (silent_ask fun s => ?_) fun text => fun s => silent_ok ()
  exact (s.silent_describedName r).bind fun _ => (s.silent_operandText v).bind fun _ => silent_ok _

/-- Where the element of a vector with a record has a size and each insertion an index, scattering
answers only if every element ends within the piece of the vector. Otherwise it touches nothing and
faults with the first insertion that does not; any other fault has no explanation. -/
theorem scatter_exceeds (hs : s.Sound) {o : Value} {type : Ty} {width : Int} {binding : Binding}
    {links : List ValueId} {index : ValueId → Int} (ho : s.get? v = some o)
    (hinsert : o.isInsertElement = true) (htype : o.type.vectorElement? = some type)
    (hfind : (findRecord (.ofValue v)).run s = (.ok (some r), u))
    (hwidth : ((s.layoutFor r).sizeInBits type).1 = .ok width)
    (hbinding : (s.get? r).bind Value.binding? = some binding)
    (hbuilds : s.Builds (.ofValue v) links)
    (hindex : ∀ link ∈ links, s.elementIndex link = .ok (index link)) :
    (scatter (.ofValue v)).Ends s (fun _ _ => s.Fits binding.expression width index links)
      fun f t => f.message = "" ∧ s.Fits binding.expression width index links ∨
        s.Untouched t ∧ s.FirstExceeding binding.expression width index links f := by
  have hsu : s.Untouched u := ((Untouched.fixes.findRecord (.ofValue v)).ends s).ok hfind
  have hlayouts : s.KeepsLayouts u := ((fixes_keepsLayouts.findRecord (.ofValue v)).ends s).ok hfind
  have hu := ((keeps_findRecord hs (.ofValue v)).ok hfind).1.sound hs
  have hexpression := hs.closed.hasIn_expression hbinding
  have hplan := planScatter_exceeds hu ((hsu.intact.layoutFor hlayouts r).symm ▸ hwidth)
    ((hsu.intact.binding? r).trans hbinding) (hsu.intact.builds_iff.mpr hbuilds)
    fun link hlink => hsu.intact.elementIndex hs.closed (hindex link hlink)
  have hfits : u.Fits binding.expression width index links ↔
      s.Fits binding.expression width index links := hsu.intact.fits_iff hexpression
  unfold Ends
  rw [run_scatter ho hinsert htype]
  refine ends_run_bind hfind ?_
  refine Ends.bind (hplan.mono (fun _ _ h => hfits.mp h) ?_) fun plan t hplan => ?_
  · rintro f t ⟨hut, ⟨hsilent, hf⟩ | hf⟩
    · exact .inl ⟨hsilent, hfits.mp hf⟩
    · exact .inr ⟨hsu.trans hut, hsu.intact.firstExceeding hexpression hbuilds hf⟩
  · -- behind the plan all faults are without an explanation
    refine (Ends.run (plan.carryOut r v) t).mono (fun _ _ _ => hplan) fun f w hf => ?_
    exact .inl ⟨Fault.message_of_isLack (silent_carryOut plan r v t f (by rw [hf])), hplan⟩

end SsaDebugInfo
