import SsaDebugInfo.Proofs.Act.Conduct
import SsaDebugInfo.Proofs.Ir.Print
import SsaDebugInfo.Script.Session

/-!
# Reading where instructions come from

In the text of a block a comment line stands in front of an instruction that comes from somewhere
else than the one before it, and the first instruction is taken to come after one without a
location. A reader who goes through the lines keeps the place of the last comment. This is the place
of every instruction that is met, since the location that the writer keeps is the one that the
reader's place was written for. The reader only has the text, and a name with a line break in it
makes lines that nobody wrote; so none may be among what is written.

- `readLines`: the reading of lines.
- `Store.Faithful`: the readings tell of each instruction its text and its own place, and count a
  comment for those that come from another location than the one before.
- `Store.faithful_readLines`: the lines of instructions are read faithfully, from every place on.
- `Store.Unbroken`: no line break is written for a block.
- `Store.blockText_faithful`: the text of a block is read faithfully.
- `Script.Session.blockText_misleads_brokenName`: the text of a block with a line break in a name.
-/

namespace SsaDebugInfo

/-! ## Reading -/

/-- The place of instructions that have no location. -/
def synthesized : String := "<synthesized>"

/-- What is read at the line of an instruction. -/
structure Reading where
  /-- The place of the last comment. -/
  place : String
  /-- How many comments have been met since the instruction before. -/
  comments : Nat
  /-- The instruction as it is written. -/
  text : String
  deriving DecidableEq

/-- Reads lines in order. Comments and instructions are known by their first two characters; other
lines are passed over. -/
def readLines (place : String) (comments : Nat) : List String → List Reading
  | [] => []
  | line :: rest =>
    match line.toList with
    | ';' :: ' ' :: told => readLines (String.ofList told) (comments + 1) rest
    | ' ' :: ' ' :: text => ⟨place, comments, String.ofList text⟩ :: readLines place 0 rest
    | _ => readLines place comments rest

variable {place told text line : String} {comments : Nat} {rest : List String}

/-- A comment tells the place of what follows. -/
theorem readLines_comment :
    readLines place comments (("; " ++ told) :: rest) = readLines told (comments + 1) rest := by
  simp [readLines]

/-- An instruction comes from the place that was told last. -/
theorem readLines_instruction : readLines place comments (("  " ++ text) :: rest) =
    ⟨place, comments, text⟩ :: readLines place 0 rest := by
  simp [readLines]

/-- A line that starts with neither a semicolon nor a blank is passed over. -/
theorem readLines_other {c : Char} {more : List Char} (hline : line.toList = c :: more)
    (hc : c ≠ ';' ∧ c ≠ ' ') :
    readLines place comments (line :: rest) = readLines place comments rest := by
  rw [readLines, hline]
  split
  · next h => exact absurd (List.cons.inj h).1 hc.1
  · next h => exact absurd (List.cons.inj h).1 hc.2
  · rfl

/-- The lines of a text. -/
def linesOf (text : String) : List String :=
  (text.toList.splitOn '\n').map String.ofList

/-- Lines that are put together are told apart again, if none of them holds a line break. -/
theorem linesOf_intercalate {lines : List String} (hlines : lines ≠ [])
    (h : ∀ line ∈ lines, '\n' ∉ line.toList) : linesOf ("\n".intercalate lines) = lines := by
  have hbreak : ∀ text ∈ lines.map String.toList, '\n' ∉ text := by
    intro text htext
    obtain ⟨line, hline, rfl⟩ := List.mem_map.mp htext
    exact h line hline
  have hback : String.ofList ∘ String.toList = id := funext fun _ => String.ofList_toList
  rw [linesOf, String.toList_intercalate]
  show ((['\n'].intercalate (lines.map String.toList)).splitOn '\n').map String.ofList = lines
  rw [List.splitOn_intercalate _ hbreak (by simpa using hlines), List.map_map, hback, List.map_id]

namespace Store

variable {s : Store} {current loc first slot : Slot} {insns : List Slot} {lines : List String}
  {readings : List Reading} {b : ValueId}

/-! ## Places -/

/-- The place that a location stands for as it is written. -/
def placeText (s : Store) (loc : Slot) : Except Fault String := do
  if loc.isNone then return synthesized
  let filename ← s.filenameOf loc
  let (line, column) ← s.positionOf loc
  return filename.getD "None" ++ ":" ++ toString line ++ ":" ++ toString column

/-- The place that the instruction in a slot comes from. -/
def placeOf (s : Store) (slot : Slot) : Except Fault String := do
  let insn ← found (s.instructionIn? slot)
  s.placeText insn.2.loc

/-- The instruction in a slot as it is written. -/
def textOf (s : Store) (slot : Slot) : Except Fault String := do
  s.entityText (← found slot.value?)

/-- The first line of a block. -/
def headerOf (s : Store) (b : ValueId) : Except Fault String := do
  s.blockHeader b (← found ((s.get? b).bind (·.site?)))

/-- No line break is written for a block: neither in its first line, nor for any of its instructions
or their places. -/
def Unbroken (s : Store) (b : ValueId) : Prop :=
  (∀ header ∈ (s.headerOf b).toOption, '\n' ∉ header.toList) ∧
    ∀ slot ∈ s.instructionsOf b, (∀ text ∈ (s.textOf slot).toOption, '\n' ∉ text.toList) ∧
      ∀ place ∈ (s.placeOf slot).toOption, '\n' ∉ place.toList

instance (b : ValueId) : Decidable (s.Unbroken b) :=
  inferInstanceAs (Decidable (_ ∧ _))

/-- The location of the instruction in a slot. -/
def locIn (s : Store) (slot : Slot) : Slot :=
  (s.instructionIn? slot).bind (·.2.loc)

/-- The location of the instruction before the one with the given number. -/
def locBefore (s : Store) (first : Slot) (insns : List Slot) : Nat → Slot
  | 0 => first
  | n + 1 => insns[n]?.bind s.locIn

/-- The readings are those of the instructions: of each its text and the place that it comes from
are told, and a comment has been met in front of it if and only if it has another location than the
instruction before. -/
structure Faithful (s : Store) (first : Slot) (insns : List Slot) (readings : List Reading) :
    Prop where
  length : readings.length = insns.length
  text : ∀ {n : Nat} {slot : Slot} {r : Reading},
    insns[n]? = some slot → readings[n]? = some r →
      ∃ x, slot = .ofValue x ∧ s.entityText x = .ok r.text
  place : ∀ {n : Nat} {slot : Slot} {r : Reading},
    insns[n]? = some slot → readings[n]? = some r → s.placeOf slot = .ok r.place
  comments : ∀ {n : Nat} {slot : Slot} {r : Reading},
    insns[n]? = some slot → readings[n]? = some r →
      r.comments = if s.locIn slot = s.locBefore first insns n then 0 else 1

/-- A comment is the place behind its mark. -/
theorem locationComment_eq (loc : Slot) :
    s.locationComment loc = ("; " ++ ·) <$> s.placeText loc := by
  unfold locationComment placeText
  split
  · rfl
  · cases s.filenameOf loc with
    | error f => rfl
    | ok filename =>
      cases s.positionOf loc with
      | error f => rfl
      | ok position => simp [bind, Except.bind, pure, Except.pure, String.append_assoc]

theorem faithful_nil : s.Faithful first [] [] where
  length := rfl
  text := fun h => nomatch h
  place := fun h => nomatch h
  comments := fun h => nomatch h

/-- One more instruction in front is read faithfully if its own reading is right. -/
theorem Faithful.cons {x : ValueId} {i : Instruction} {r : Reading}
    (h : s.Faithful i.loc insns readings) (hin : s.instructionIn? slot = some (x, i))
    (htext : s.entityText x = .ok r.text) (hplace : s.placeText i.loc = .ok r.place)
    (hcomments : r.comments = if i.loc = first then 0 else 1) :
    s.Faithful first (slot :: insns) (r :: readings) := by
  have hloc : s.locIn slot = i.loc := by rw [locIn, hin]; rfl
  have hbefore : ∀ n, s.locBefore first (slot :: insns) (n + 1) = s.locBefore i.loc insns n := by
    intro n
    cases n with
    | zero => exact hloc
    | succ n => rfl
  constructor
  · rw [List.length_cons, List.length_cons, h.length]
  · rintro (_ | n) slot' r' hslot hr
    · cases hslot
      cases hr
      exact ⟨x, (instructionIn?_eq_some.mp hin).1, htext⟩
    · exact h.text hslot hr
  · rintro (_ | n) slot' r' hslot hr
    · cases hslot
      cases hr
      rw [placeOf, hin]
      exact hplace
    · exact h.place hslot hr
  · rintro (_ | n) slot' r' hslot hr
    · cases hslot
      cases hr
      rw [hloc]
      exact hcomments
    · rw [hbefore]
      exact h.comments hslot hr

/-! ## The lines of instructions -/

/-- The comment in front of an instruction: none if it comes from where the one before did. -/
def commentLines (s : Store) (current loc : Slot) : Except Fault (List String) :=
  if loc = current then pure [] else List.singleton <$> s.locationComment loc

/-- The lines of a list are the comment and the text of the first instruction and the lines of the
others, which start at its location. -/
theorem instructionLines_cons (locs : Bool) : s.instructionLines locs current (slot :: insns) =
    (if locs then (·.2.loc) <$> found (s.instructionIn? slot) else pure current) >>= fun loc =>
      s.commentLines current loc >>= fun comment => found slot.value? >>= fun x =>
        s.entityText x >>= fun text => s.instructionLines locs loc insns >>= fun more =>
          pure (comment ++ ("  " ++ text) :: more) := by
  have hcomment : ∀ (loc : Slot) (write : List String → Except Fault (List String)),
      (if loc = current then pure [] >>= write
        else List.singleton <$> s.locationComment loc >>= write) =
          s.commentLines current loc >>= write := by
    intro loc write
    unfold commentLines
    split <;> rfl
  rw [instructionLines]
  cases locs <;> exact bind_congr fun loc => hcomment loc _

/-- A comment tells the place of the location that it stands for. -/
theorem commentLines_eq_ok {comment : List String} (h : s.commentLines current loc = .ok comment) :
    loc = current ∧ comment = [] ∨
      loc ≠ current ∧ ∃ told, s.placeText loc = .ok told ∧ comment = ["; " ++ told] := by
  unfold commentLines at h
  split at h
  · next hsame => exact .inl ⟨hsame, (Except.ok.inj h).symm⟩
  · next hother =>
    rw [locationComment_eq] at h
    cases hplace : s.placeText loc with
    | error f =>
      rw [hplace] at h
      cases h
    | ok told =>
      rw [hplace] at h
      exact .inr ⟨hother, told, rfl, (Except.ok.inj h).symm⟩

/-- There may be a comment if and only if the place can be told, given that the place of the
instruction before can be. -/
theorem isOk_commentLines_iff (hcurrent : (s.placeText current).isOk = true) :
    (s.commentLines current loc).isOk = true ↔ (s.placeText loc).isOk = true := by
  unfold commentLines
  split
  · next h => exact ⟨fun _ => h ▸ hcurrent, fun _ => rfl⟩
  · rw [isOk_map, locationComment_eq, isOk_map]

/-- The line of an instruction, and the comment in front of it if there is one. -/
theorem instructionLines_cons_eq_ok :
    s.instructionLines true current (slot :: insns) = .ok lines ↔
      ∃ x i text comment more, s.instructionIn? slot = some (x, i) ∧ s.entityText x = .ok text ∧
        s.commentLines current i.loc = .ok comment ∧
        s.instructionLines true i.loc insns = .ok more ∧
        lines = comment ++ ("  " ++ text) :: more := by
  simp only [instructionLines_cons, bind_eq_ok, if_true]
  constructor
  · rintro ⟨loc, hloc, comment, hcomment, x, hx, text, htext, more, hmore, hlines⟩
    cases hin : s.instructionIn? slot with
    | none =>
      rw [hin] at hloc
      cases hloc
    | some insn =>
      obtain ⟨x', i⟩ := insn
      rw [hin] at hloc
      obtain rfl : i.loc = loc := Except.ok.inj hloc
      rw [(instructionIn?_eq_some.mp hin).1] at hx
      obtain rfl : x' = x := Except.ok.inj hx
      exact ⟨x', i, text, comment, more, rfl, htext, hcomment, hmore, (Except.ok.inj hlines).symm⟩
  · rintro ⟨x, i, text, comment, more, hin, htext, hcomment, hmore, rfl⟩
    refine ⟨i.loc, by rw [hin]; rfl, comment, hcomment, x, ?_, text, htext, more, hmore, rfl⟩
    rw [(instructionIn?_eq_some.mp hin).1]
    rfl

/-- The line of an instruction where no comments are asked for. -/
theorem instructionLines_plain_cons_eq_ok :
    s.instructionLines false current (slot :: insns) = .ok lines ↔
      ∃ x text more, slot = .ofValue x ∧ s.entityText x = .ok text ∧
        s.instructionLines false current insns = .ok more ∧ lines = ("  " ++ text) :: more := by
  simp only [instructionLines_cons, bind_eq_ok, Bool.false_eq_true, if_false]
  constructor
  · rintro ⟨loc, hloc, comment, hcomment, x, hx, text, htext, more, hmore, hlines⟩
    obtain rfl : current = loc := Except.ok.inj hloc
    rw [commentLines, if_pos rfl] at hcomment
    obtain rfl : [] = comment := Except.ok.inj hcomment
    have hslot := Slot.value?_eq_some_iff.mp (found_eq_ok.mp hx)
    exact ⟨x, text, more, hslot, htext, hmore, (Except.ok.inj hlines).symm⟩
  · rintro ⟨x, text, more, rfl, htext, hmore, rfl⟩
    exact ⟨current, rfl, [], if_pos rfl, x, rfl, text, htext, more, hmore, rfl⟩

/-- The lines of instructions are read faithfully if the reader starts with the place of the
location that the writer starts with. -/
theorem faithful_readLines (hplace : s.placeText current = .ok place)
    (h : s.instructionLines true current insns = .ok lines) :
    s.Faithful current insns (readLines place 0 lines) := by
  induction insns generalizing current place lines with
  | nil =>
    obtain rfl : [] = lines := Except.ok.inj h
    exact faithful_nil
  | cons slot insns ih =>
    obtain ⟨x, i, text, comment, more, hin, htext, hcomment, hmore, rfl⟩ :=
      instructionLines_cons_eq_ok.mp h
    rcases commentLines_eq_ok hcomment with ⟨hsame, rfl⟩ | ⟨hother, told, htold, rfl⟩
    · -- the place that the reader keeps is that of the instruction
      rw [List.nil_append, readLines_instruction]
      rw [← hsame] at hplace
      exact (ih hplace hmore).cons hin htext hplace (if_pos hsame).symm
    · -- the reader comes to keep the place of the instruction
      rw [List.singleton_append, readLines_comment, readLines_instruction]
      exact (ih htold hmore).cons hin htext htold (if_neg hother).symm

/-- Where no line break is written for an instruction or its place, none is in the lines. -/
theorem unbroken_instructionLines
    (htexts : ∀ slot ∈ insns, ∀ text ∈ (s.textOf slot).toOption, '\n' ∉ text.toList)
    (hplaces : ∀ slot ∈ insns, ∀ place ∈ (s.placeOf slot).toOption, '\n' ∉ place.toList)
    (h : s.instructionLines true current insns = .ok lines) :
    ∀ line ∈ lines, '\n' ∉ line.toList := by
  induction insns generalizing current lines with
  | nil =>
    obtain rfl : [] = lines := Except.ok.inj h
    exact fun _ hline => nomatch hline
  | cons slot insns ih =>
    obtain ⟨x, i, text, comment, more, hin, htext, hcomment, hmore, rfl⟩ :=
      instructionLines_cons_eq_ok.mp h
    obtain ⟨hslotText, hrestTexts⟩ := List.forall_mem_cons.mp htexts
    obtain ⟨hslotPlace, hrestPlaces⟩ := List.forall_mem_cons.mp hplaces
    obtain rfl := (instructionIn?_eq_some.mp hin).1
    have hunbroken : '\n' ∉ text.toList := by
      refine hslotText text ?_
      rw [show s.textOf (.ofValue x) = s.entityText x from rfl, htext]
      rfl
    have hcommentUnbroken : ∀ line ∈ comment, '\n' ∉ line.toList := by
      rcases commentLines_eq_ok hcomment with ⟨_, rfl⟩ | ⟨_, told, htold, rfl⟩
      · exact fun _ hline => nomatch hline
      · have htoldUnbroken : '\n' ∉ told.toList := by
          refine hslotPlace told ?_
          rw [placeOf, hin]
          show told ∈ (s.placeText i.loc).toOption
          rw [htold]
          rfl
        exact List.forall_mem_singleton.mpr (by simp [htoldUnbroken])
    refine List.forall_mem_append.mpr ⟨hcommentUnbroken, List.forall_mem_cons.mpr ⟨?_, ?_⟩⟩
    · simp [hunbroken]
    · exact ih hrestTexts hrestPlaces hmore

/-- The lines of instructions can be written with comments if and only if they can be written
without them, and it can be told of each instruction where it comes from. -/
theorem exists_instructionLines_iff (hcurrent : (s.placeText current).isOk = true) :
    (∃ lines, s.instructionLines true current insns = .ok lines) ↔
      (∃ lines, s.instructionLines false none insns = .ok lines) ∧
        ∀ slot ∈ insns, (s.placeOf slot).isOk = true := by
  induction insns generalizing current with
  | nil => exact ⟨fun _ => ⟨⟨[], rfl⟩, fun _ h => nomatch h⟩, fun _ => ⟨[], rfl⟩⟩
  | cons slot insns ih =>
    simp only [instructionLines_cons_eq_ok, instructionLines_plain_cons_eq_ok, List.forall_mem_cons]
    constructor
    · rintro ⟨_, x, i, text, comment, more, hin, htext, hcomment, hmore, _⟩
      have hplace := (isOk_commentLines_iff hcurrent).mp (isOk_iff.mpr ⟨comment, hcomment⟩)
      obtain ⟨⟨more', hmore'⟩, hrest⟩ := (ih hplace).mp ⟨more, hmore⟩
      refine ⟨⟨_, x, text, more', (instructionIn?_eq_some.mp hin).1, htext, hmore', rfl⟩, ?_, hrest⟩
      rw [placeOf, hin]
      exact hplace
    · rintro ⟨⟨_, x, text, more, rfl, htext, hmore, _⟩, hslot, hrest⟩
      obtain ⟨⟨x', i⟩, hin, hplace⟩ := isOk_bind.mp hslot
      have hin := found_eq_ok.mp hin
      obtain rfl : x = x' := by
        cases (instructionIn?_eq_some.mp hin).1
        rfl
      obtain ⟨comment, hcomment⟩ := isOk_iff.mp ((isOk_commentLines_iff hcurrent).mpr hplace)
      obtain ⟨more', hmore'⟩ := (ih hplace).mpr ⟨⟨more, hmore⟩, hrest⟩
      exact ⟨_, x, i, text, comment, more', hin, htext, hcomment, hmore', rfl⟩

/-! ## The text of a block -/

/-- The text of a block: its first line, and those of its instructions. -/
theorem blockText_eq_ok {locs : Bool} : s.blockText locs b = .ok text ↔
    ∃ o site header lines, s.get? b = some o ∧ o.shape = .block site (s.instructionsOf b) ∧
      s.blockHeader b site = .ok header ∧
      s.instructionLines locs none (s.instructionsOf b) = .ok lines ∧
      text = "\n".intercalate (header :: lines) := by
  unfold blockText
  rw [bind_eq_ok]
  constructor
  · rintro ⟨o, ho, h⟩
    have ho := found_eq_ok.mp ho
    have hinsns : s.instructionsOf b = o.instructions := by rw [instructionsOf, ho]; rfl
    rw [hinsns]
    obtain ⟨_, shape, _, _⟩ := o
    cases shape with
    | block site instructions =>
      obtain ⟨header, hheader, h⟩ := bind_eq_ok.mp h
      obtain ⟨lines, hlines, h⟩ := bind_eq_ok.mp h
      exact ⟨_, site, header, lines, ho, rfl, hheader, hlines, (Except.ok.inj h).symm⟩
    | _ => cases h
  · rintro ⟨o, site, header, lines, ho, hshape, hheader, hlines, rfl⟩
    refine ⟨o, by rw [ho]; rfl, ?_⟩
    rw [hshape]
    exact bind_eq_ok.mpr ⟨header, hheader, bind_eq_ok.mpr ⟨lines, hlines, rfl⟩⟩

/-- The first line of a block starts with its name, and so neither with a semicolon nor with a
blank. -/
theorem exists_head_blockHeader {site : Site} {header : String}
    (h : s.blockHeader b site = .ok header) :
    ∃ c more, header.toList = c :: more ∧ c ≠ ';' ∧ c ≠ ' ' := by
  have hname : ∃ c more, (Text.Identifier.print site.name ++ ":").toList = c :: more ∧
      c ≠ ';' ∧ c ≠ ' ' := by
    rw [String.toList_append, Text.Identifier.print, String.toList_ofList,
      Text.Identifier.printChars]
    split
    · next hbare =>
      cases hchars : site.name.toList with
      | nil => exact ⟨':', [], rfl, by decide⟩
      | cons c rest =>
        have hc : Text.Identifier.isBareChar c = true :=
          List.all_eq_true.mp hbare c (by rw [hchars]; exact List.mem_cons_self)
        refine ⟨c, _, rfl, ?_, ?_⟩ <;>
        · rintro rfl
          revert hc
          decide +kernel
    · exact ⟨Text.doubleQuote, _, rfl, by decide⟩
  obtain ⟨c, more, hlabel, hc⟩ := hname
  unfold blockHeader at h
  split at h
  · obtain rfl := Except.ok.inj h
    exact ⟨c, more, hlabel, hc⟩
  · obtain ⟨names, _, h⟩ := bind_eq_ok.mp h
    obtain rfl := Except.ok.inj h
    exact ⟨c, _, by rw [String.toList_append, String.toList_append, hlabel]; rfl, hc⟩

/-- A block can be written with comments if and only if it can be written without them, and it can
be told of each instruction where it comes from. As long as no line break is written, the lines of
the text are the first line of the block and those of its instructions, and they are read
faithfully: at every instruction the place of the last comment, or that of instructions without a
location as long as there is none, is the place that the instruction comes from; and a comment
stands in front of an instruction if and only if its location is another than that of the
instruction before, or is any location for the first instruction. -/
theorem blockText_faithful (s : Store) (b : ValueId) :
    ((s.blockText true b).isOk = true ↔ (s.blockText false b).isOk = true ∧
      ∀ slot ∈ s.instructionsOf b, (s.placeOf slot).isOk = true) ∧
    ∀ text, s.blockText true b = .ok text → s.Unbroken b → ∃ header lines,
      s.headerOf b = .ok header ∧
      s.instructionLines true none (s.instructionsOf b) = .ok lines ∧
      linesOf text = header :: lines ∧
      s.Faithful none (s.instructionsOf b) (readLines synthesized 0 (linesOf text)) := by
  constructor
  · have hlines : (∃ lines, s.instructionLines true none (s.instructionsOf b) = .ok lines) ↔
        (∃ lines, s.instructionLines false none (s.instructionsOf b) = .ok lines) ∧
          ∀ slot ∈ s.instructionsOf b, (s.placeOf slot).isOk = true :=
      exists_instructionLines_iff rfl
    rw [isOk_iff, isOk_iff]
    simp only [blockText_eq_ok]
    constructor
    · rintro ⟨_, o, site, header, lines, ho, hshape, hheader, hwritten, _⟩
      obtain ⟨⟨lines', hplain⟩, hplaces⟩ := hlines.mp ⟨lines, hwritten⟩
      exact ⟨⟨_, o, site, header, lines', ho, hshape, hheader, hplain, rfl⟩, hplaces⟩
    · rintro ⟨⟨_, o, site, header, lines, ho, hshape, hheader, hplain, _⟩, hplaces⟩
      obtain ⟨lines', hwritten⟩ := hlines.mpr ⟨⟨lines, hplain⟩, hplaces⟩
      exact ⟨_, o, site, header, lines', ho, hshape, hheader, hwritten, rfl⟩
  · rintro text htext ⟨hunbroken, hinsns⟩
    obtain ⟨o, site, header, lines, ho, hshape, hheader, hlines, rfl⟩ := blockText_eq_ok.mp htext
    have hsite : o.site? = some site := by rw [Value.site?, hshape]
    have hfirst : s.headerOf b = .ok header := by
      rw [headerOf, ho, Option.bind_some, hsite]
      exact hheader
    have hback : linesOf ("\n".intercalate (header :: lines)) = header :: lines := by
      refine linesOf_intercalate (List.cons_ne_nil _ _) (List.forall_mem_cons.mpr ⟨?_, ?_⟩)
      · exact hunbroken header (by rw [hfirst]; rfl)
      · exact unbroken_instructionLines (fun slot hslot => (hinsns slot hslot).1)
          (fun slot hslot => (hinsns slot hslot).2) hlines
    refine ⟨header, lines, hfirst, hlines, hback, ?_⟩
    obtain ⟨c, more, hhead, hc⟩ := exists_head_blockHeader hheader
    rw [hback, readLines_other hhead hc]
    exact faithful_readLines rfl hlines

end Store

namespace Script.Session

open Store

/-- A block of five instructions: one without a location, two from one location, one from another
location in the same place, and one without a location again. -/
def alternating : List Command :=
  [.run (.metadata (.file "f" "d")) (some "file") none,
   .run (.metadata (.subprogram "s" (some "file") 1 none none)) (some "scope") none,
   .run (.metadata (.location 3 1 (some "scope") none)) (some "here") none,
   .run (.metadata (.location 3 1 (some "scope") none)) (some "there") none,
   .run (.make (.block "entry" [])) (some "entry") none,
   .run (.make (.instruction (.phi (.int 1)) "p" none)) (some "p") (some "entry"),
   .run (.make (.instruction (.phi (.int 1)) "q" (some "here"))) (some "q") (some "entry"),
   .run (.make (.instruction (.phi (.int 1)) "r" (some "here"))) (some "r") (some "entry"),
   .run (.make (.instruction (.phi (.int 1)) "s" (some "there"))) (some "s") (some "entry"),
   .run (.make (.instruction (.phi (.int 1)) "t" none)) (some "t") (some "entry")]

/-- The lines of the block, number 0. -/
def alternatingLines : List String :=
  ["entry:", "  %p = i1 phi [???]", "; f:3:1", "  %q = i1 phi [???]", "  %r = i1 phi [???]",
    "; f:3:1", "  %s = i1 phi [???]", "; <synthesized>", "  %t = i1 phi [???]"]

/-- The places are told where the location changes, also where the place does not. -/
theorem blockText_faithful_alternating :
    (runAll [] {} alternating).1.store.blockText true ⟨0⟩ =
        .ok ("\n".intercalate alternatingLines) ∧
      (runAll [] {} alternating).1.store.Unbroken ⟨0⟩ ∧
      (runAll [] {} alternating).1.store.Faithful none
        ((runAll [] {} alternating).1.store.instructionsOf ⟨0⟩)
        (readLines synthesized 0 (linesOf ("\n".intercalate alternatingLines))) ∧
      (readLines synthesized 0 alternatingLines).map (fun r => (r.place, r.comments)) =
        [("<synthesized>", 0), ("f:3:1", 1), ("f:3:1", 0), ("f:3:1", 1), ("<synthesized>", 1)] := by
  have hstore : (runAll [] {} alternating).1.store.blockText true ⟨0⟩ =
        .ok ("\n".intercalate alternatingLines) ∧
      (runAll [] {} alternating).1.store.Unbroken ⟨0⟩ := by
    decide +kernel
  obtain ⟨hwritten, hunbroken⟩ := hstore
  obtain ⟨_, _, _, _, _, hfaithful⟩ := (blockText_faithful _ _).2 _ hwritten hunbroken
  exact ⟨hwritten, hunbroken, hfaithful, by decide +kernel⟩

/-- A block of two instructions without a location. The name of the first one has line breaks in it,
and a line that looks like a comment. -/
def brokenName : List Command :=
  [.run (.make (.block "entry" [])) (some "entry") none,
   .run (.make (.instruction (.phi (.int 1)) "p\n; g:9:9\n  x" none)) (some "p") (some "entry"),
   .run (.make (.instruction (.phi (.int 1)) "q" none)) (some "q") (some "entry")]

/-- The text of the block. -/
def brokenText : String :=
  "entry:\n  %\"p\n; g:9:9\n  x\" = i1 phi [???]\n  %q = i1 phi [???]"

/-- Neither instruction has a location, but whoever reads the text of the block, number 0, finds the
second one at the place that the name of the first one tells. -/
theorem blockText_misleads_brokenName :
    (runAll [] {} brokenName).1.store.blockText true ⟨0⟩ = .ok brokenText ∧
      (∀ slot ∈ (runAll [] {} brokenName).1.store.instructionsOf ⟨0⟩,
        (runAll [] {} brokenName).1.store.locIn slot = none ∧
          (runAll [] {} brokenName).1.store.placeOf slot = .ok synthesized) ∧
      (readLines synthesized 0 (linesOf brokenText)).getLast? =
        some ⟨"g:9:9", 0, "%q = i1 phi [???]"⟩ ∧
      ¬ (runAll [] {} brokenName).1.store.Faithful none
        ((runAll [] {} brokenName).1.store.instructionsOf ⟨0⟩)
        (readLines synthesized 0 (linesOf brokenText)) := by
  have hread : (runAll [] {} brokenName).1.store.blockText true ⟨0⟩ = .ok brokenText ∧
      (∀ slot ∈ (runAll [] {} brokenName).1.store.instructionsOf ⟨0⟩,
        (runAll [] {} brokenName).1.store.locIn slot = none ∧
          (runAll [] {} brokenName).1.store.placeOf slot = .ok synthesized) ∧
      (readLines synthesized 0 (linesOf brokenText)).getLast? =
        some ⟨"g:9:9", 0, "%q = i1 phi [???]"⟩ ∧
      (readLines synthesized 0 (linesOf brokenText)).length ≠
        ((runAll [] {} brokenName).1.store.instructionsOf ⟨0⟩).length := by
    decide +kernel
  obtain ⟨hwritten, hplaces, hlast, hlength⟩ := hread
  exact ⟨hwritten, hplaces, hlast, fun hfaithful => hlength hfaithful.length⟩

end Script.Session

end SsaDebugInfo
