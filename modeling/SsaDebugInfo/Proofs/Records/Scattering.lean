import Mathlib.Data.List.Forall2
import SsaDebugInfo.Proofs.Records.Chain
import SsaDebugInfo.Proofs.Records.Describing
import SsaDebugInfo.Proofs.Records.Relocation

/-!
# Scattering the record of a vector

Scattering the record of a vector first measures an element, walks along the insertions that build
the vector and finds the place of each element in the variable (`planScatter`). All this leaves the
program intact. Then it puts one record behind every insertion (`Plan.carryOut`), which does not
fault where each insertion stands in the list of its block and inserts a value.

- `planScatter_ends`, `planScatter_plans`: what planning leaves, and what it answers.
- `Scattered`: what the records of the elements are, and where they stand.
- `Scattered.insert`, `carryOut_scatters`: the loop over the insertions, with one record more after
  each.
- `scatter_as_planned`: the whole ends as carrying out the plan does, where there is one.
- `scatter_ends`, `scatter_scatters`: the whole, where it may fault and where it does not.
-/

namespace SsaDebugInfo

open Act Store

variable {s t u : Store} {r v : ValueId} {slot : Slot}

/-! ## The size of an element -/

/-- The layout under which sizes are taken for a record: that of the module of its function, or else
the default one. -/
def Store.layoutFor (s : Store) (r : ValueId) : Layout :=
  let module? := (s.functionOf? r).bind fun f => (s.get? f).bind Function.module
  (module?.bind fun m => (s.get? m).bind fun m => s.get? m.layout).getD
    { text := Layout.defaultText }

theorem run_ofExcept {α : Type} (result : Except Fault α) :
    (MonadExcept.ofExcept result : Act α).run s = (result, s) :=
  run_ask (fun _ => result) s

/-- The size for a record is that under its layout. -/
theorem sizeForRecord_answer (hs : s.Closed) (type : Ty) :
    ((sizeForRecord r type).run s).1 = ((s.layoutFor r).sizeInBits type).1 := by
  rw [run_sizeForRecord]
  unfold sizeInFunction layoutFor
  cases hf : s.functionOf? r with
  | none => exact congrArg Prod.fst (run_ofExcept _)
  | some f =>
    obtain ⟨o, ho⟩ := Option.isSome_iff_exists.mp (hs.has_function hf)
    dsimp only
    rw [run_fetch_bind ho]
    cases hm : o.module with
    | none =>
      rw [run_ofExcept]
      simp [ho, hm]
    | some m =>
      obtain ⟨p, hp⟩ := Option.isSome_iff_exists.mp ((hs.function ho).module m hm _ rfl)
      obtain ⟨layout, hlayout⟩ := Option.isSome_iff_exists.mp ((hs.module hp).layout _ rfl)
      dsimp only
      rw [run_fetch_bind hp, sizeUnder, run_fetch_bind hlayout, run_bind, run_update]
      simp [ho, hm, hp, hlayout, run_ofExcept]

/-- Layouts, with the sizes that they remember, stay as they are. -/
def Store.KeepsLayouts (s t : Store) : Prop :=
  ∀ id : LayoutId, t.get? id = s.get? id

instance : IsPreorder Store KeepsLayouts where
  refl _ _ := rfl
  trans _ _ _ hst htu id := (htu id).trans (hst id)

theorem fixes_keepsLayouts : Act.Fixes KeepsLayouts where
  value _ _ _ _ := get?_modify_kind _ _ _ _ (by decide)
  function _ _ _ _ := get?_modify_kind _ _ _ _ (by decide)

/-- Fixing contexts leaves the layout for a record as it is. -/
theorem Store.Intact.layoutFor (h : s.Intact t) (hlayouts : s.KeepsLayouts t) (r : ValueId) :
    t.layoutFor r = s.layoutFor r := by
  have hmodule : ∀ f : FunctionId,
      (t.get? f).bind Function.module = (s.get? f).bind Function.module := by
    intro f
    have hsame := congrArg (Option.bind · Function.module) (h.same .function f none)
    rw [Option.bind_map, Option.bind_map] at hsame
    exact hsame
  have hmodules : ∀ m : ModuleId, t.get? m = s.get? m := fun m => h.same .module m
  unfold Store.layoutFor
  simp only [h.unmoved.functionOf?, hmodule, hmodules, hlayouts _]

theorem intact_sizeForRecord (r : ValueId) (type : Ty) : (sizeForRecord r type).Only Intact :=
  only_sizeForRecord (fun _ _ _ => .modify fun _ _ => trivial) r type

/-! ## A scattering in two parts -/

/-- What a scattering goes by: the variable and the place in the source that the records are for,
how wide an element is, the insertions, and where in the variable their elements lie. -/
structure Plan where
  var : Slot
  loc : Slot
  width : Int
  inserts : List ValueId
  offsets : List Int

/-- Finds out what the scattering of a record goes by. -/
def planScatter (slot : Slot) (r : ValueId) (type : Ty) : Act Plan := do
  let width ← sizeForRecord r type
  let binding ← ask fun s => found ((s.get? r).bind (·.binding?))
  let loc ← ask fun s => found ((s.instruction? r).map (·.loc))
  let parent ← ask fun s => s.parentPiece binding.expression
  let inserts ← ask fun s => s.chain slot
  let offsets ← ask fun s => inserts.mapM (s.pieceOffset width parent)
  return ⟨binding.var, loc, width, inserts, offsets⟩

/-- Adds the records of a plan, and writes it into the journal. -/
def Plan.carryOut (plan : Plan) (r v : ValueId) : Act Unit := do
  (plan.inserts.zip plan.offsets).forM (scatterOne plan.var plan.loc plan.width)
  let text ← ask fun s => do
    return "scattered " ++ (← s.describedName r) ++ " over " ++
      toString plan.inserts.length ++ " elements of " ++ (← s.operandText v)
  record ⟨.records, .debug, text⟩

/-- The record of an insertion is scattered by a plan, which is made before anything is changed. -/
theorem run_scatter {o : Value} {type : Ty} (ho : s.get? v = some o)
    (hinsert : o.isInsertElement = true) (htype : o.type.vectorElement? = some type) :
    (scatter (.ofValue v)).run s = Act.run (do
      match ← findRecord (.ofValue v) with
      | none => pure ()
      | some r =>
        let plan ← planScatter (.ofValue v) r type
        plan.carryOut r v) s := by
  unfold scatter planScatter Plan.carryOut
  rw [run_get_bind, valueIn?_eq_some.mpr ⟨rfl, ho⟩]
  dsimp only
  rw [hinsert, htype]
  refine congrArg (fun next => Act.run (findRecord (.ofValue v) >>= next) s) (funext fun r => ?_)
  cases r with
  | none => rfl
  | some r => simp only [bind_assoc, pure_bind]

/-- Anything but an insertion of a vector is left alone. -/
theorem run_scatter_other (h : ∀ (o : Value) (type : Ty), s.get? v = some o →
    o.type.vectorElement? = some type → o.isInsertElement = false) :
    (scatter (.ofValue v)).run s = (.ok (), s) := by
  rw [scatter, run_get_bind]
  split
  · rfl
  · next id o hin =>
    obtain ⟨hid, ho⟩ := valueIn?_eq_some.mp hin
    obtain rfl : v = id := by simpa using hid
    split
    · next type hinsert htype =>
      rw [h o type ho htype] at hinsert
      cases hinsert
    · rfl

/-! ## Planning -/

/-- A plan names what is there, and the insertions that build the vector; each has its operands. -/
theorem planScatter_ends (hs : s.Sound) (type : Ty) : (planScatter slot r type).Ends s
    (fun plan t => s.Intact t ∧ Edited {} s t ∧ t.HasIn plan.var ∧ t.HasIn plan.loc ∧
      s.Builds slot plan.inserts ∧ ∀ link ∈ plan.inserts, 2 < (s.operandsOf link).length)
    fun _ t => s.Intact t := by
  have hsize := (keeps_sizeForRecord (d := {}) hs r type).edits.ends
  refine Ends.bind (((intact_sizeForRecord r type).ends s).and hsize |>.mono (fun _ _ h => h)
    fun _ _ h => h.1) fun width t ⟨hintact, hedited, _⟩ => ?_
  have ht := (hedited.sound hs).closed
  refine ends_ask_bind (fun _ _ => hintact) fun binding hbinding => ?_
  refine ends_ask_bind (fun _ _ => hintact) fun loc hloc => ?_
  refine ends_ask_bind (fun _ _ => hintact) fun parent _ => ?_
  refine ends_ask_bind (fun _ _ => hintact) fun inserts hchain => ?_
  refine ends_ask_bind (fun _ _ => hintact) fun offsets hoffsets => ends_pure ?_
  refine ⟨hintact, hedited, ht.hasIn_var (found_eq_ok.mp hbinding),
    ht.hasIn_loc (found_eq_ok.mp hloc), hintact.builds_iff.mp (chain_eq_ok.mp hchain),
    fun link hlink => ?_⟩
  have hall := isOk_mapM.mp (isOk_iff.mpr ⟨offsets, hoffsets⟩)
  obtain ⟨offset, hoffset⟩ := isOk_iff.mp (hall link hlink)
  rw [← hintact.operandsOf]
  exact length_of_pieceOffset hoffset

theorem mapM_eq_ok {α β : Type} {f : α → Except Fault β} {g : α → β} {l : List α}
    (h : ∀ a ∈ l, f a = .ok (g a)) : l.mapM f = .ok (l.map g) := by
  induction l with
  | nil => rfl
  | cons a rest ih =>
    rw [List.mapM_cons, h a List.mem_cons_self, ih fun b hb => h b (List.mem_cons_of_mem a hb)]
    rfl

/-- Where the element has a size and each insertion an index, at which the element ends within the
piece that the vector holds, there is a plan: it places each element by its index. -/
theorem planScatter_plans (hs : s.Sound) {type : Ty} {width : Int} {binding : Binding} {loc : Slot}
    {parent : Option Expression.BitPiece} {links : List ValueId} {index : ValueId → Int}
    (hwidth : ((s.layoutFor r).sizeInBits type).1 = .ok width)
    (hbinding : (s.get? r).bind Value.binding? = some binding)
    (hloc : (s.instruction? r).map Instruction.loc = some loc)
    (hparent : s.parentPiece binding.expression = .ok parent) (hbuilds : s.Builds slot links)
    (hindex : ∀ link ∈ links, s.elementIndex link = .ok (index link))
    (hfits : ∀ link ∈ links, ∀ piece, parent = some piece →
      index link * width + width ≤ piece.size) :
    (planScatter slot r type).Ends s (fun plan _ => plan = ⟨binding.var, loc, width, links,
      links.map fun link => pieceStart parent + index link * width⟩) fun _ _ => False := by
  have hexpression := hs.closed.hasIn_expression hbinding
  have hsize := run_eq_ok ((sizeForRecord_answer (r := r) hs.closed type).trans hwidth)
  have hintact := ((intact_sizeForRecord r type).ends s).ok hsize
  have hoffsets := mapM_eq_ok fun link hlink => pieceOffset_of_fits
    (hintact.elementIndex hs.closed (hindex link hlink)) (hfits link hlink)
  refine ends_run_bind hsize ?_
  refine ends_answer_bind (found_eq_ok.mpr ((hintact.binding? r).trans hbinding)) ?_
  refine ends_answer_bind (found_eq_ok.mpr ((hintact.loc? r).trans hloc)) ?_
  refine ends_answer_bind ((hintact.parentPiece hexpression).trans hparent) ?_
  refine ends_answer_bind (chain_eq_ok.mpr (hintact.builds_iff.mpr hbuilds)) ?_
  exact ends_answer_bind hoffsets (ends_pure rfl)

/-! ## Carrying out a plan -/

namespace Store

variable {var loc : Slot} {width offset : Int} {pieces : List (ValueId × Int)}
  {records : List ValueId} {link element : ValueId}

/-- A record describes the element that an insertion inserts by its bits of the variable, and stands
right behind the insertion. -/
structure Covers (s : Store) (var loc : Slot) (width : Int) (t : Store) (piece : ValueId × Int)
    (r : ValueId) : Prop where
  describes : ∃ element, ∃ e : NodeId, (s.operandsOf piece.1)[1]? = some (.ofValue element) ∧
    t.get? e = some (.expression (Expression.ofBitPiece piece.2 width)) ∧
    t.Describes r element ⟨var, .ofNode e, 0⟩ loc
  beside : ∀ b, s.blockOf? piece.1 = some b →
    [.ofValue piece.1, .ofValue r] <:+: t.instructionsOf b

/-- A record still covers its element when another one comes behind another insertion. -/
theorem Covers.of_inserts {piece : ValueId × Int} {r' : ValueId} {binding : Binding} {loc' : Slot}
    (h : s.Covers var loc width t piece r') (hu : t.Inserts link r element binding loc' u)
    (hmem : ∀ c, t.blockOf? link = some c → .ofValue link ∈ t.instructionsOf c)
    (hne : piece.1 ≠ link) : s.Covers var loc width u piece r' := by
  obtain ⟨⟨element', e, helement, he, hdescribes⟩, hbeside⟩ := h
  constructor
  · exact ⟨element', e, helement, hu.node he, hdescribes.of_retains hu.toRetains⟩
  · intro c hc
    rw [hu.instructionsOf]
    split
    · next hlink =>
      exact infix_putAfter (hbeside c hc) (hmem c hlink) fun heq => hne (by simpa using heq.symm)
    · exact hbeside c hc

/-- A record that has come behind an insertion for its element covers it. -/
theorem Inserts.covers {e : NodeId} (hu : t.Inserts link r element ⟨var, .ofNode e, 0⟩ loc u)
    (hlink : s.blockOf? link = t.blockOf? link)
    (hmem : ∀ c, t.blockOf? link = some c → .ofValue link ∈ t.instructionsOf c)
    (helement : (s.operandsOf link)[1]? = some (.ofValue element))
    (he : u.get? e = some (.expression (Expression.ofBitPiece offset width))) :
    s.Covers var loc width u (link, offset) r := by
  constructor
  · exact ⟨element, e, helement, he, hu.describes⟩
  · intro c hc
    have hc' : t.blockOf? link = some c := hlink.symm.trans hc
    rw [hu.instructionsOf, if_pos hc']
    exact infix_putAfter_self _ (hmem c hc')

/-- Without a new record, and without others, lists are what they were. -/
theorem Inserts.filter_instructionsOf {binding : Binding}
    (hu : t.Inserts link r element binding loc u) (ht : t.Closed) (c : ValueId) :
    (u.instructionsOf c).filter (· ∉ (records ++ [r]).map Slot.ofValue) =
      (t.instructionsOf c).filter (· ∉ records.map Slot.ofValue) := by
  have hsame : (t.instructionsOf c).filter (· ∉ (records ++ [r]).map Slot.ofValue) =
      (t.instructionsOf c).filter (· ∉ records.map Slot.ofValue) := by
    refine List.filter_congr fun slot hslot => ?_
    have hne : slot ≠ .ofValue r := by
      rintro rfl
      exact hu.new (hasIn_some.mp (ht.hasIn_instruction hslot))
    simp [hne]
  rw [hu.instructionsOf]
  split
  · rw [filter_putAfter (by simp)]
    exact hsame
  · exact hsame

/-- Each insertion has got a record of its own. Besides these only wrappers have come as values, and
no list has changed otherwise. -/
structure Scattered (s : Store) (var loc : Slot) (width : Int) (pieces : List (ValueId × Int))
    (records : List ValueId) (t : Store) : Prop extends s.Retains t where
  once : records.Nodup
  come : ∀ r ∈ records, ¬ s.Has (.value r) ∧ t.Has (.value r)
  values : ∀ v, t.Has (.value v) → s.Has (.value v) ∨ v ∈ records ∨ ∃ n, t.wrappedAt v = some n
  each : List.Forall₂ (s.Covers var loc width t) pieces records
  lists : ∀ b, (t.instructionsOf b).filter (· ∉ records.map Slot.ofValue) = s.instructionsOf b

namespace Scattered

theorem start (s : Store) (var loc : Slot) (width : Int) :
    s.Scattered var loc width [] [] s where
  toRetains := .refl s
  once := List.nodup_nil
  come _ h := nomatch h
  values _ h := .inl h
  each := .nil
  lists b := by simp

variable (h : s.Scattered var loc width pieces records t)

include h

/-- What is in a list stays in it. -/
theorem mem_instructionsOf {b : ValueId} {slot : Slot} (hslot : slot ∈ s.instructionsOf b) :
    slot ∈ t.instructionsOf b := by
  rw [← h.lists b] at hslot
  exact List.mem_of_mem_filter hslot

/-- One more record, behind an insertion that has none yet. -/
theorem insert (ht : t.Closed) {e : NodeId} {b : ValueId} (hlink : s.blockOf? link = some b)
    (hmem : .ofValue link ∈ s.instructionsOf b) (hnew : link ∉ pieces.map Prod.fst)
    (helement : (s.operandsOf link)[1]? = some (.ofValue element))
    (he : u.get? e = some (.expression (Expression.ofBitPiece offset width)))
    (hu : t.Inserts link r element ⟨var, .ofNode e, 0⟩ loc u) :
    s.Scattered var loc width (pieces ++ [(link, offset)]) (records ++ [r]) u := by
  have hlink' : t.blockOf? link = some b :=
    (h.blockOf? (has_of_formOf? (formOf?_of_blockOf? hlink))).trans hlink
  have hmem' : ∀ c, t.blockOf? link = some c → .ofValue link ∈ t.instructionsOf c := by
    intro c hc
    obtain rfl : b = c := Option.some_inj.mp (hlink'.symm.trans hc)
    exact h.mem_instructionsOf hmem
  -- the record is new, and those that came before it are not
  have hr : r ∉ records := fun hr => hu.new (h.come r hr).2
  constructor
  · exact h.toRetains.trans hu.toRetains
  · refine List.nodup_append.mpr ⟨h.once, List.nodup_singleton r, fun x hx y hy heq => hr ?_⟩
    rwa [← List.mem_singleton.mp hy, ← heq]
  · intro x hx
    rcases List.mem_append.mp hx with hx | hx
    · exact ⟨(h.come x hx).1, hu.has (h.come x hx).2⟩
    · obtain rfl := List.mem_singleton.mp hx
      exact ⟨fun hs => hu.new (h.has hs), has_of_isRecord hu.describes.isRecord⟩
  · intro x hx
    rw [List.mem_append, List.mem_singleton]
    rcases hu.values x hx with hx | rfl | hn
    · rcases h.values x hx with hx | hx | ⟨n, hn⟩
      · exact .inl hx
      · exact .inr (.inl (.inl hx))
      · exact .inr (.inr ⟨n, hu.toMoreTables.wrappedAt hn⟩)
    · exact .inr (.inl (.inr rfl))
    · exact .inr (.inr hn)
  · refine List.rel_append ?_ (.cons (hu.covers (hlink.trans hlink'.symm) hmem' helement he) .nil)
    obtain ⟨hlength, heach⟩ := List.forall₂_iff_zip.mp h.each
    refine List.forall₂_iff_zip.mpr ⟨hlength, fun {piece r'} hzip => ?_⟩
    refine (heach hzip).of_inserts hu hmem' fun heq => hnew ?_
    rw [← heq]
    exact List.mem_map_of_mem (List.of_mem_zip hzip).1
  · exact fun c => (hu.filter_instructionsOf ht c).trans (h.lists c)

omit h in
/-- Before the scattering, what leaves the program intact does not count. -/
theorem of_intact (hsu : s.Intact u) (hmore : s.MoreTables u)
    (h : u.Scattered var loc width pieces records t) :
    s.Scattered var loc width pieces records t := by
  refine ⟨(hsu.retains hmore).trans h.toRetains, h.once, ?_, ?_, ?_, ?_⟩
  · exact fun r hr => (h.come r hr).imp_left fun hnew hs => hnew (hsu.has hs)
  · intro x hx
    rcases h.values x hx with hu | hx
    · by_cases hs : s.Has (.value x)
      · exact .inl hs
      · obtain ⟨n, hn⟩ := hsu.wrapper_of_new hu hs
        exact .inr (.inr ⟨n, h.toMoreTables.wrappedAt hn⟩)
    · exact .inr hx
  · refine h.each.imp fun piece r hcovers => ⟨?_, fun b hb => ?_⟩
    · obtain ⟨element, e, helement, hrest⟩ := hcovers.describes
      exact ⟨element, e, (hsu.operandsOf piece.1) ▸ helement, hrest⟩
    · exact hcovers.beside b ((hsu.unmoved.blockOf? piece.1).trans hb)
  · exact fun b => (h.lists b).trans (hsu.unmoved.instructionsOf b)

/-- Nor does it afterwards. -/
theorem intact (htu : t.Intact u) (hmore : t.MoreTables u) :
    s.Scattered var loc width pieces records u := by
  have hretains := htu.retains hmore
  refine ⟨h.toRetains.trans hretains, h.once, ?_, ?_, ?_, ?_⟩
  · exact fun r hr => (h.come r hr).imp_right hmore.has
  · intro x hx
    by_cases ht : t.Has (.value x)
    · refine (h.values x ht).imp_right (.imp_right ?_)
      rintro ⟨n, hn⟩
      exact ⟨n, hmore.wrappedAt hn⟩
    · exact .inr (.inr (htu.wrapper_of_new hx ht))
  · refine h.each.imp fun piece r hcovers => ⟨?_, fun b hb => ?_⟩
    · obtain ⟨element, e, helement, he, hdescribes⟩ := hcovers.describes
      exact ⟨element, e, helement, htu.node he, hdescribes.of_retains hretains⟩
    · exact (htu.unmoved.instructionsOf b) ▸ hcovers.beside b hb
  · intro b
    rw [htu.unmoved.instructionsOf]
    exact h.lists b

end Scattered

theorem Retains.nameOf? (h : s.Retains t) (hv : s.Has (.value v)) :
    t.nameOf? (.value v) = s.nameOf? (.value v) := by
  obtain ⟨a, ha⟩ := has_value_iff.mp hv
  obtain ⟨b, hb, hstays, _⟩ := h.stays ha
  show (t.get? v).bind Value.name? = (s.get? v).bind Value.name?
  rw [hb, ha]
  exact hstays.name

/-- A record whose variable has a name describes one that has a name still. -/
theorem Retains.isOk_describedName (h : s.Retains t) (hname : (s.describedName r).isOk = true) :
    (t.describedName r).isOk = true :=
  isOk_describedName_of (fun _ ha => have ⟨b, hb, hstays, _⟩ := h.stays ha
    ⟨b, hb, hstays.toCarries⟩) (fun _ => isSome_nameOf?_of h.toExtends (fun _ => h.nameOf?) h.node)
    hname

end Store

theorem nodup_fst_zip {α β : Type} {l : List α} (h : l.Nodup) (l' : List β) :
    ((l.zip l').map Prod.fst).Nodup := by
  induction l generalizing l' with
  | nil => simp
  | cons a rest ih =>
    cases l' with
    | nil => simp
    | cons b rest' =>
      obtain ⟨ha, hrest⟩ := List.nodup_cons.mp h
      refine List.nodup_cons.mpr ⟨fun hmem => ha ?_, ih hrest rest'⟩
      obtain ⟨p, hp, rfl⟩ := List.mem_map.mp hmem
      exact (List.of_mem_zip hp).1

/-- What comes once has not come before. -/
theorem not_mem_fst_before {α β : Type} {before after : List (α × β)} {p : α × β}
    (h : ((before ++ p :: after).map Prod.fst).Nodup) : p.1 ∉ before.map Prod.fst := by
  rw [List.map_append, List.map_cons] at h
  exact fun hbefore => (List.nodup_append.mp h).2.2 p.1 hbefore p.1 List.mem_cons_self rfl

/-- Carrying out a plan does not fault if every insertion stands in a block and inserts a value, and
if the variable of the record that is scattered has a name. -/
theorem carryOut_scatters (hs : s.Sound) (hwraps : s.WrapsOlder) (hlists : s.ListsAgree)
    {plan : Plan} (hvar : s.HasIn plan.var) (hloc : s.HasIn plan.loc) (honce : plan.inserts.Nodup)
    (hlinks : ∀ link ∈ plan.inserts, (∃ b, s.blockOf? link = some b) ∧
      ∃ element, (s.operandsOf link)[1]? = some (.ofValue element))
    (hname : (s.describedName r).isOk = true) (hv : s.Has (.value v)) :
    (plan.carryOut r v).Ends s (fun _ t => ∃ records, s.Scattered plan.var plan.loc plan.width
      (plan.inserts.zip plan.offsets) records t) fun _ _ => False := by
  let pieces := plan.inserts.zip plan.offsets
  have hpieces : ((plan.inserts.zip plan.offsets).map Prod.fst).Nodup :=
    nodup_fst_zip honce plan.offsets
  refine Ends.bind (ends_forM (fun pieces t => t.Sound ∧ t.WrapsOlder ∧
    ∃ records, s.Scattered plan.var plan.loc plan.width pieces records t)
    ⟨hs, hwraps, [], .start s plan.var plan.loc plan.width⟩ ?_) ?_
  · rintro before ⟨link, offset⟩ after hl t ⟨ht, hwraps', records, hscattered⟩
    have hmem : (link, offset) ∈ pieces := by simp [pieces, hl]
    obtain ⟨⟨b, hlink⟩, element, helement⟩ := hlinks link (List.of_mem_zip hmem).1
    have hhas : s.Has (.value link) := has_of_formOf? (formOf?_of_blockOf? hlink)
    have hlist := hlists.mem_instructionsOf.mpr hlink
    have hinserts := scatterOne_inserts ht (hscattered.hasIn hvar) (hscattered.hasIn hloc)
      plan.width offset ((hscattered.blockOf? hhas).trans hlink)
      (hscattered.mem_instructionsOf hlist) ((hscattered.operandsOf hhas) ▸ helement)
    have hkeeps := (keeps_scatterOne (d := {}) ht (fun _ h => h.elim) (hscattered.hasIn hvar)
      (hscattered.hasIn hloc) plan.width (link, offset)).edits.ends
    refine (hinserts.also hkeeps).mono ?_ fun _ _ hf => hf
    rintro _ u ⟨⟨hu, r', e, he, hinserts⟩, hedited, _⟩
    refine ⟨hu, hwraps'.of_edits ht hedited.edits, records ++ [r'], ?_⟩
    exact hscattered.insert ht.closed hlink hlist (not_mem_fst_before (hl ▸ hpieces)) helement he
      hinserts
  · rintro _ t ⟨ht, hwraps', records, hscattered⟩
    obtain ⟨name, hname⟩ := isOk_iff.mp (hscattered.isOk_describedName hname)
    obtain ⟨text, htext⟩ := isOk_iff.mp (isOk_operandText ht.closed hwraps' (hscattered.has hv))
    refine ends_answer_bind (by rw [hname, htext]; rfl) ?_
    exact ⟨records, hscattered.intact (Intact.record _ t) (Interns.annotate ht _ _).more⟩

/-- So it is after a plan has been made. -/
theorem carryOut_ends (hs : s.Sound) (hst : s.Intact t) (hedited : Edited {} s t)
    (hwraps : s.WrapsOlder) (hlists : s.ListsAgree) {plan : Plan} (hvar : t.HasIn plan.var)
    (hloc : t.HasIn plan.loc) (honce : plan.inserts.Nodup)
    (hlinks : ∀ link ∈ plan.inserts, (∃ b, s.blockOf? link = some b) ∧
      ∃ element, (s.operandsOf link)[1]? = some (.ofValue element))
    (hname : (s.describedName r).isOk = true) (hv : s.Has (.value v)) :
    (plan.carryOut r v).Ends t (fun _ u => ∃ records, s.Scattered plan.var plan.loc plan.width
      (plan.inserts.zip plan.offsets) records u) fun _ _ => False := by
  have hplaced : ∀ link ∈ plan.inserts, (∃ b, t.blockOf? link = some b) ∧
      ∃ element, (t.operandsOf link)[1]? = some (.ofValue element) := by
    intro link hlink
    rw [hst.unmoved.blockOf?, hst.operandsOf]
    exact hlinks link hlink
  refine (carryOut_scatters (hedited.sound hs) (hwraps.of_edits hs hedited.edits)
    (hlists.of_unmoved hst.unmoved) hvar hloc honce hplaced
    ((hst.describedName hs.closed r).symm ▸ hname) (hst.has hv)).mono ?_ fun _ _ hf => hf
  rintro _ u ⟨records, hscattered⟩
  exact ⟨records, hscattered.of_intact hst (hedited.edits.moreTables hs)⟩

/-! ## The whole -/

/-- Where every insertion that builds the vector stands in a block and inserts only values, and the
variable of the record has a name, scattering faults only before it has changed the program. -/
theorem scatter_ends (hs : s.Sound) (hwraps : s.WrapsOlder) (hlists : s.ListsAgree)
    (hname : ∀ r u, (findRecord (.ofValue v)).run s = (.ok (some r), u) →
      (s.describedName r).isOk = true)
    (hlinks : ∀ links, s.Builds (.ofValue v) links → ∀ link ∈ links,
      (∃ b, s.blockOf? link = some b) ∧ s.InsertsValue link) :
    (scatter (.ofValue v)).Ends s (fun _ _ => True) fun _ t => s.Intact t := by
  by_cases hvector : ∃ (o : Value) (type : Ty), s.get? v = some o ∧ o.isInsertElement = true ∧
      o.type.vectorElement? = some type
  · obtain ⟨o, type, ho, hinsert, htype⟩ := hvector
    have hv : s.Has (.value v) := has_value_iff.mpr ⟨o, ho⟩
    obtain ⟨found?, u, hfind⟩ := answers_findRecord hs hv
    have hsu : s.Intact u := by
      have h := Intact.fixes.findRecord (.ofValue v) s
      rwa [hfind] at h
    have hinterns : s.Interns u := ((keeps_findRecord hs (.ofValue v)).ok hfind).1
    have hu := hinterns.sound hs
    unfold Ends
    rw [run_scatter ho hinsert htype]
    refine ends_run_bind hfind ?_
    cases found? with
    | none => exact ends_pure trivial
    | some r =>
      refine ((planScatter_ends hu type).mono (fun _ _ h => h) fun _ _ h => hsu.trans h).bind ?_
      rintro plan t ⟨hut, hedited, hvar, hloc, hbuilds, hlengths⟩
      -- planning has changed no link, so that the insertions stand where they stood
      have hplaced := hlinks _ (hsu.builds_iff.mp hbuilds)
      refine (carryOut_ends hs (hsu.trans hut) ((hinterns.edited {}).trans hedited) hwraps hlists
        hvar hloc hbuilds.nodup (fun link hlink => (hplaced link hlink).imp_right fun h => ?_)
        (hname r u hfind) hv).mono (fun _ _ _ => trivial) fun _ _ hf => hf.elim
      exact h.element (hsu.operandsOf link ▸ hlengths link hlink)
  · have hother : (scatter (.ofValue v)).run s = (.ok (), s) := by
      refine run_scatter_other fun o type ho htype => Bool.eq_false_iff.mpr fun hinsert => ?_
      exact hvector ⟨o, type, ho, hinsert, htype⟩
    unfold Ends
    rw [hother]
    trivial

/-- Where the element has a size and each insertion an index, at which the element ends within the
piece that the vector holds, scattering ends as carrying out the plan does from where it is made. -/
theorem scatter_as_planned (hs : s.Sound) {o : Value} {type : Ty} {width : Int} {binding : Binding}
    {loc : Slot} {parent : Option Expression.BitPiece} {links : List ValueId}
    {index : ValueId → Int} {answers : Unit → Store → Prop} {faults : Fault → Store → Prop}
    (ho : s.get? v = some o) (hinsert : o.isInsertElement = true)
    (htype : o.type.vectorElement? = some type)
    (hfind : (findRecord (.ofValue v)).run s = (.ok (some r), u))
    (hwidth : ((s.layoutFor r).sizeInBits type).1 = .ok width)
    (hbinding : (s.get? r).bind Value.binding? = some binding)
    (hloc : (s.instruction? r).map Instruction.loc = some loc)
    (hparent : s.parentPiece binding.expression = .ok parent)
    (hbuilds : s.Builds (.ofValue v) links)
    (hindex : ∀ link ∈ links, s.elementIndex link = .ok (index link))
    (hfits : ∀ link ∈ links, ∀ piece, parent = some piece →
      index link * width + width ≤ piece.size)
    (hcarry : ∀ t, s.Intact t → Edited {} s t → t.HasIn binding.var → t.HasIn loc →
      (Plan.carryOut ⟨binding.var, loc, width, links, links.map fun link =>
        pieceStart parent + index link * width⟩ r v).Ends t answers faults) :
    (scatter (.ofValue v)).Ends s answers faults := by
  have hsu : s.Intact u := ((Intact.fixes.findRecord (.ofValue v)).ends s).ok hfind
  have hlayouts : s.KeepsLayouts u := ((fixes_keepsLayouts.findRecord (.ofValue v)).ends s).ok hfind
  have hinterns : s.Interns u := ((keeps_findRecord hs (.ofValue v)).ok hfind).1
  have hu := hinterns.sound hs
  have hexpression := hs.closed.hasIn_expression hbinding
  -- what planning asks for is as it was before the record was looked up
  have hplans := planScatter_plans hu ((hsu.layoutFor hlayouts r).symm ▸ hwidth)
    ((hsu.binding? r).trans hbinding) ((hsu.loc? r).trans hloc)
    ((hsu.parentPiece hexpression).trans hparent) (hsu.builds_iff.mpr hbuilds)
    (fun link hlink => hsu.elementIndex hs.closed (hindex link hlink)) hfits
  unfold Ends
  rw [run_scatter ho hinsert htype]
  refine ends_run_bind hfind ?_
  refine (hplans.also (planScatter_ends hu type)).sure.bind ?_
  rintro _ t ⟨rfl, hut, hedited, hvar, hloc, _⟩
  exact hcarry t (hsu.trans hut) ((hinterns.edited {}).trans hedited) hvar hloc

/-- Where moreover every insertion stands in a block and inserts a value, each gets a record for its
element. -/
theorem scatter_scatters (hs : s.Sound) (hwraps : s.WrapsOlder) (hlists : s.ListsAgree) {o : Value}
    {type : Ty} {width : Int} {binding : Binding} {loc : Slot}
    {parent : Option Expression.BitPiece} {links : List ValueId} {index : ValueId → Int}
    (ho : s.get? v = some o) (hinsert : o.isInsertElement = true)
    (htype : o.type.vectorElement? = some type)
    (hfind : (findRecord (.ofValue v)).run s = (.ok (some r), u))
    (hname : (s.describedName r).isOk = true)
    (hwidth : ((s.layoutFor r).sizeInBits type).1 = .ok width)
    (hbinding : (s.get? r).bind Value.binding? = some binding)
    (hloc : (s.instruction? r).map Instruction.loc = some loc)
    (hparent : s.parentPiece binding.expression = .ok parent)
    (hbuilds : s.Builds (.ofValue v) links)
    (hlinks : ∀ link ∈ links, (∃ b, s.blockOf? link = some b) ∧ s.InsertsValue link)
    (hindex : ∀ link ∈ links, s.elementIndex link = .ok (index link))
    (hfits : ∀ link ∈ links, ∀ piece, parent = some piece →
      index link * width + width ≤ piece.size) :
    (scatter (.ofValue v)).Ends s (fun _ t => ∃ records, s.Scattered binding.var loc width
      (links.map fun link => (link, pieceStart parent + index link * width)) records t)
      fun _ _ => False := by
  refine scatter_as_planned hs ho hinsert htype hfind hwidth hbinding hloc hparent hbuilds hindex
    hfits fun t hst hedited hvar hloc => ?_
  have hplaced : ∀ link ∈ links, (∃ b, s.blockOf? link = some b) ∧
      ∃ element, (s.operandsOf link)[1]? = some (.ofValue element) := fun link hlink =>
    (hlinks link hlink).imp_right fun h => h.element (length_of_elementIndex (hindex link hlink))
  rw [List.map_prod_left_eq_zip]
  exact carryOut_ends hs hst hedited hwraps hlists hvar hloc hbuilds.nodup hplaced hname
    (has_value_iff.mpr ⟨o, ho⟩)

end SsaDebugInfo
