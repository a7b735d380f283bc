import SsaDebugInfo.Proofs.Records.Scattering
import SsaDebugInfo.Proofs.Script.Pieces
import SsaDebugInfo.Proofs.Script.Predecessors

/-!
# Scattering describes every element

Where lists and links agree, the record of a vector that is built by insertions in blocks is
scattered into one record for each insertion, and nothing else changes. Where something is amiss, a
scattering that faults has not touched the program, as long as all insertions stand in blocks and
the variable has a name: these two are not looked at before the first record is made.

- `scatter_describes`: what scattering does.
- `Reachable.scatter_covers`: the same in reachable sessions.
- `Reachable.scatter_fault_unaltered`: what a scattering that faults leaves.
-/

namespace SsaDebugInfo

open Act Store

variable {s t : Store}

/-- A record of an element tracks the element, and no other value. -/
theorem Store.Covers.tracks {var loc : Slot} {width : Int} {piece : ValueId × Int} {r : ValueId}
    (h : s.Covers var loc width t piece r) : ∃ element,
      (s.operandsOf piece.1)[1]? = some (.ofValue element) ∧
        ∀ v, t.tracks r v = true ↔ v = element := by
  obtain ⟨element, e, helement, _, hdescribes⟩ := h.describes
  exact ⟨element, helement, fun _ => hdescribes.tracks⟩

variable {v r : ValueId} {u : Store}

/-- Where lists and links agree, let a vector be built by insertions that stand in blocks and insert
values at numbers, let its record describe a variable with a name, and let all elements end within
the piece that the record describes, if it describes a piece. Then scattering succeeds, and right
behind each insertion stands a new record, which tracks the element that is inserted. All else
stays. -/
theorem scatter_describes (hs : s.Sound) (hwraps : s.WrapsOlder) (hlists : s.ListsAgree) {o : Value}
    {type : Ty} {width : Int} {binding : Binding} {loc : Slot}
    {parent : Option Expression.BitPiece} {links : List ValueId} {index : ValueId → Int}
    (ho : s.get? v = some o) (hinsert : o.isInsertElement = true)
    (htype : o.type.vectorElement? = some type)
    (hfind : (findRecord (.ofValue v)).run s = (.ok (some r), u))
    (hname : (s.describedName r).isOk = true)
    (hwidth : ((s.layoutFor r).sizeInBits type).1 = .ok width)
    (hbinding : (s.get? r).bind Value.binding? = some binding)
    (hloc : (s.instruction? r).map Instruction.loc = some loc)
    (hparent : s.parentPiece binding.expression = .ok parent)
    (hbuilds : s.Builds (.ofValue v) links)
    (hlinks : ∀ link ∈ links, (∃ b, s.blockOf? link = some b) ∧ s.InsertsValue link)
    (hindex : ∀ link ∈ links, s.elementIndex link = .ok (index link))
    (hfits : ∀ link ∈ links, ∀ piece, parent = some piece →
      index link * width + width ≤ piece.size) :
    ∃ t records, (scatter (.ofValue v)).run s = (.ok (), t) ∧
      records.length = links.length ∧
      s.Scattered binding.var loc width
        (links.map fun link => (link, pieceStart parent + index link * width)) records t ∧
      List.Forall₂ (fun link r' => ∃ element,
        (s.operandsOf link)[1]? = some (.ofValue element) ∧
          ∀ x, t.tracks r' x = true ↔ x = element) links records ∧
      s.AddsNodes (fun n => n.elements?.isSome = true ∨ n.handleOf?.isSome = true) t ∧
      t.operandsOf r = s.operandsOf r ∧
      (t.get? r).bind Value.binding? = some binding := by
  have hends := scatter_scatters hs hwraps hlists ho hinsert htype hfind hname hwidth hbinding hloc
    hparent hbuilds hlinks hindex hfits
  rcases hrun : (scatter (.ofValue v)).run s with ⟨⟨f⟩ | ⟨⟩, t⟩
  · exact (hends.error hrun).elim
  obtain ⟨records, hscattered⟩ := hends.ok hrun
  -- what is new among the nodes is told by what a scattering may touch at all
  have hnodes := ((touches_scatter (c := { places := true, nodes := fun n =>
    n.elements?.isSome = true ∨ n.handleOf?.isSome = true }) rfl (fun _ => .inr)
    (fun _ => .inl rfl) (.ofValue v)).addsNodes.ends _).ok hrun
  obtain ⟨o', ho', hholds⟩ := Option.bind_eq_some_iff.mp hbinding
  obtain ⟨p, hp, hstays, _⟩ := hscattered.stays ho'
  refine ⟨t, records, rfl, ?_, hscattered, ?_, hnodes,
    hscattered.operandsOf (has_value_iff.mpr ⟨o', ho'⟩), ?_⟩
  · rw [← hscattered.each.length_eq, List.length_map]
  · exact (List.forall₂_map_left_iff.mp hscattered.each).imp fun _ _ hcovers => hcovers.tracks
  · rw [hp, Option.bind_some, Value.binding?, hstays.opcode]
    exact hholds

namespace Script.Session

variable {d : Discipline} {session : Session}

/-- If all operands handed over are values, insertions insert nothing else. -/
theorem Reachable.insertsValue (hd : d.values = true) (h : Reachable d session) (link : ValueId) :
    session.store.InsertsValue link := by
  intro slot hslot
  exact (h.useDef hd link).value (List.mem_of_getElem? hslot)

/-- Where lists and links agree, let a vector be built by insertions that stand in blocks and insert
values at numbers, let its record describe a variable with a name, and let all elements end within
the piece that the record describes, if it describes a piece. Then scattering succeeds, and right
behind each insertion stands a new record, which tracks the element that is inserted. It describes
as many bits of the variable as the element has, from where its index says. All else stays: the
record of the vector holds and says what it did, and without the new records lists are as before. -/
theorem Reachable.scatter_covers (h : Reachable d session) (hlists : session.store.ListsAgree)
    {o : Value} {type : Ty} {width : Int} {binding : Binding} {loc : Slot}
    {parent : Option Expression.BitPiece} {links : List ValueId} {index : ValueId → Int}
    (ho : session.store.get? v = some o) (hinsert : o.isInsertElement = true)
    (htype : o.type.vectorElement? = some type)
    (hfind : (findRecord (.ofValue v)).run session.store = (.ok (some r), u))
    (hname : (session.store.describedName r).isOk = true)
    (hwidth : ((session.store.layoutFor r).sizeInBits type).1 = .ok width)
    (hbinding : (session.store.get? r).bind Value.binding? = some binding)
    (hloc : (session.store.instruction? r).map Instruction.loc = some loc)
    (hparent : session.store.parentPiece binding.expression = .ok parent)
    (hbuilds : session.store.Builds (.ofValue v) links)
    (hplaced : ∀ link ∈ links, ∃ b, session.store.blockOf? link = some b)
    (hvalues : d.values = true ∨ ∀ link ∈ links, session.store.InsertsValue link)
    (hindex : ∀ link ∈ links, session.store.elementIndex link = .ok (index link))
    (hfits : ∀ link ∈ links, ∀ piece, parent = some piece →
      index link * width + width ≤ piece.size) :
    ∃ t records, (scatter (.ofValue v)).run session.store = (.ok (), t) ∧
      records.length = links.length ∧
      session.store.Scattered binding.var loc width
        (links.map fun link => (link, pieceStart parent + index link * width)) records t ∧
      List.Forall₂ (fun link r' => ∃ element,
        (session.store.operandsOf link)[1]? = some (.ofValue element) ∧
          ∀ x, t.tracks r' x = true ↔ x = element) links records ∧
      session.store.AddsNodes (fun n => n.elements?.isSome = true ∨ n.handleOf?.isSome = true) t ∧
      t.operandsOf r = session.store.operandsOf r ∧
      (t.get? r).bind Value.binding? = some binding :=
  scatter_describes h.sound.store h.wrapsOlder hlists ho hinsert htype hfind hname hwidth hbinding
    hloc hparent hbuilds
    (fun link hlink => ⟨hplaced link hlink, hvalues.elim (fun hd => h.insertsValue hd link)
      fun hvalues => hvalues link hlink⟩)
    hindex hfits

/-- The two insertions, values 6 and 5, get a record each for the argument that they insert,
value 1: for the 32 bits behind the first 64 and for those behind the first 96. -/
theorem scatter_covers_describedWithin :
    Reachable { values := true } (runAll [] {} (describedWithin 1 0)).1 ∧
      ∃ t r₀ r₁, (scatter (.ofValue ⟨6⟩)).run (runAll [] {} (describedWithin 1 0)).1.store =
          (.ok (), t) ∧
        (runAll [] {} (describedWithin 1 0)).1.store.Scattered (.ofNode ⟨0⟩) none 32
          [(⟨6⟩, 64), (⟨5⟩, 96)] [r₀, r₁] t ∧
        [.ofValue ⟨6⟩, .ofValue r₀] <:+: t.instructionsOf ⟨2⟩ ∧
        [.ofValue ⟨5⟩, .ofValue r₁] <:+: t.instructionsOf ⟨2⟩ ∧
        t.tracks r₀ ⟨1⟩ = true ∧ t.tracks r₁ ⟨1⟩ = true := by
  have h : Reachable { values := true } (runAll [] {} (describedWithin 1 0)).1 :=
    reachable_runAll .new (by decide +kernel)
  let index (link : ValueId) : Int := if link = ⟨5⟩ then 1 else 0
  have hstart : ((findRecord (.ofValue ⟨6⟩)).run
        (runAll [] {} (describedWithin 1 0)).1.store).1 = .ok (some ⟨8⟩) ∧
      (runAll [] {} (describedWithin 1 0)).1.store.chain (.ofValue ⟨6⟩) = .ok [⟨6⟩, ⟨5⟩] ∧
      (∀ link ∈ [(⟨6⟩ : ValueId), ⟨5⟩],
        (runAll [] {} (describedWithin 1 0)).1.store.blockOf? link = some ⟨2⟩) ∧
      (∀ link ∈ [(⟨6⟩ : ValueId), ⟨5⟩],
        (runAll [] {} (describedWithin 1 0)).1.store.elementIndex link = .ok (index link)) ∧
      (∀ link ∈ [(⟨6⟩ : ValueId), ⟨5⟩],
        ((runAll [] {} (describedWithin 1 0)).1.store.operandsOf link)[1]? =
          some (.ofValue ⟨1⟩)) ∧
      (((runAll [] {} (describedWithin 1 0)).1.store.get? (⟨6⟩ : ValueId)).bind fun o =>
        o.type.vectorElement?.map fun type => (o.isInsertElement,
          (((runAll [] {} (describedWithin 1 0)).1.store.layoutFor ⟨8⟩).sizeInBits type).1)) =
        some (true, .ok 32) ∧
      ((runAll [] {} (describedWithin 1 0)).1.store.get? (⟨8⟩ : ValueId)).bind Value.binding? =
        some ⟨.ofNode ⟨0⟩, .ofNode ⟨1⟩, 0⟩ ∧
      ((runAll [] {} (describedWithin 1 0)).1.store.instruction? ⟨8⟩).map Instruction.loc =
        some none ∧
      (runAll [] {} (describedWithin 1 0)).1.store.parentPiece (.ofNode ⟨1⟩) =
        .ok (some ⟨64, 128⟩) ∧
      (runAll [] {} (describedWithin 1 0)).1.store.ListsAgree ∧
      ((runAll [] {} (describedWithin 1 0)).1.store.describedName ⟨8⟩).isOk = true := by
    decide +kernel
  obtain ⟨hfind, hchain, hplaced, hindex, helement, hvector, hbinding, hloc, hparent, hlists,
    hname⟩ := hstart
  have hfits : ∀ link ∈ [(⟨6⟩ : ValueId), ⟨5⟩], ∀ piece : Expression.BitPiece,
      some ⟨64, 128⟩ = some piece → index link * 32 + 32 ≤ piece.size := by
    rintro link hlink _ ⟨⟩
    revert link
    decide
  obtain ⟨o, ho, hvector⟩ := Option.bind_eq_some_iff.mp hvector
  obtain ⟨type, htype, hvector⟩ := Option.map_eq_some_iff.mp hvector
  obtain ⟨hinsert, hwidth⟩ := Prod.mk.inj hvector
  obtain ⟨t, records, hrun, _, hscattered, htracks, _⟩ := Reachable.scatter_covers h
    hlists ho hinsert htype (run_eq_ok hfind) hname hwidth hbinding hloc hparent
    (chain_eq_ok.mp hchain) (fun link hlink => ⟨⟨2⟩, hplaced link hlink⟩) (.inl rfl) hindex hfits
  have hpieces : [(⟨6⟩ : ValueId), ⟨5⟩].map
      (fun link => (link, pieceStart (some ⟨64, 128⟩) + index link * 32)) =
        [(⟨6⟩, 64), (⟨5⟩, 96)] := by decide
  rw [hpieces] at hscattered
  -- both insertions insert the argument
  have hargument : ∀ link ∈ [(⟨6⟩ : ValueId), ⟨5⟩], ∀ r', (∃ element,
      ((runAll [] {} (describedWithin 1 0)).1.store.operandsOf link)[1]? = some (.ofValue element) ∧
        ∀ x, t.tracks r' x = true ↔ x = element) → t.tracks r' ⟨1⟩ = true := by
    rintro link hlink r' ⟨element, hfound, htracks⟩
    obtain rfl : (⟨1⟩ : ValueId) = element := by simpa using (helement link hlink).symm.trans hfound
    exact (htracks _).mpr rfl
  match records, htracks, hscattered with
  | [r₀, r₁], .cons h₀ (.cons h₁ .nil), hscattered =>
    match hscattered.each with
    | .cons hcovers₀ (.cons hcovers₁ .nil) =>
      exact ⟨h, t, r₀, r₁, hrun, hscattered, hcovers₀.beside _ (hplaced _ (by decide)),
        hcovers₁.beside _ (hplaced _ (by decide)), hargument ⟨6⟩ (by decide) r₀ h₀,
        hargument ⟨5⟩ (by decide) r₁ h₁⟩

/-- A vector that is an argument is left alone. -/
example : ((scatter (.ofValue ⟨0⟩)).run (runAll [] {}
    [.run (.make (.argument "v" (.vector 2 (.int 32)))) (some "v") none]).1.store).1 = .ok () := by
  decide +kernel

/-- A vector that is built by one insertion, at an index that is not known. -/
def undefinedIndex : List Command :=
  [.run (.make (.argument "v" (.vector 2 (.int 32)))) (some "v") none,
   .run (.make (.argument "x" (.int 32))) (some "x") none,
   .run (.make (.block "entry" [])) (some "entry") none,
   .run (.make (.undef (.int 32) none)) (some "i") none,
   .run (.make (.instruction (.insertElement (some "v") (some "x") (some "i")) "w" none))
     (some "w") (some "entry"),
   .run (.metadata (.localVariable "var" none none 1 0)) (some "var") none,
   .run (.make (.bind (some "w") (some "var") none none 0 (.beside none (some "w"))))
     (some "record") none]

/-- A vector that is built by two insertions, the first of which is in no block. -/
def looseInsertion : List Command :=
  [.run (.make (.argument "v" (.vector 2 (.int 32)))) (some "v") none,
   .run (.make (.argument "x" (.int 32))) (some "x") none,
   .run (.make (.constant (.integer 0) (.int 32) none)) (some "i") none,
   .run (.make (.constant (.integer 1) (.int 32) none)) (some "j") none,
   .run (.make (.block "entry" [])) (some "entry") none,
   .run (.make (.instruction (.insertElement (some "v") (some "x") (some "i")) "w" none))
     (some "w") none,
   .run (.make (.instruction (.insertElement (some "w") (some "x") (some "j")) "z" none))
     (some "z") (some "entry"),
   .run (.metadata (.localVariable "var" none none 1 0)) (some "var") none,
   .run (.make (.bind (some "z") (some "var") none none 0 (.beside none (some "z"))))
     (some "record") none]

end Script.Session

end SsaDebugInfo
