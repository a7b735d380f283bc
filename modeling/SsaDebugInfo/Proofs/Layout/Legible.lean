import SsaDebugInfo.Proofs.Layout.Coherence

/-!
# Reading written types back

The written form of a type that has a size is that of no other type. A written form starts with the
innermost type and goes on outwards: behind a type come the stars of pointers to it and the
parameters of functions that return it. So two types with one written form are compared from the
start: the one that ends first is the inner part of the other, and what follows begins with neither
a star nor parameters.

Two written forms are shared. All label types look alike; and the text of a pointer into a space,
followed by a star, is that of a pointer to such a pointer and that of a pointer into the space to a
pointer into the first one. Neither kind has a size (`Ty.legible_of_sizeInBits`).

- `Ty.Suffix`: what a type has behind the type that it is made from.
- `Ty.legible`: types without labels and without pointers to pointers that have no target.
- `Ty.Reads`, `Ty.reads`: how far a written form determines what it is the start of.
- `Ty.eq_of_print_eq`: a legible type is the only one with its written form.
-/

namespace SsaDebugInfo.Ty

/-- The characters of the written form of a type. -/
def text (t : Ty) : List Char := t.print.toList

/-! ## What follows a type -/

/-- Whether a character ends a type. -/
def isCloser (c : Char) : Bool :=
  c == ',' || c == '>' || c == ']' || c == '}' || c == ')'

/-- The text does not go on with the type: it is over, or starts with a character that ends one. -/
def Ends (rest : List Char) : Prop :=
  ∀ c, rest.head? = some c → isCloser c = true

/-- The text does not go on with a number. -/
def EndsNumber (rest : List Char) : Prop :=
  ∀ c, rest.head? = some c → c.isDigit = false ∧ c ≠ '-'

/-- The text does not go on with an address space or a star. -/
def EndsPointer (rest : List Char) : Prop :=
  rest.head? ≠ some '*' ∧ rest.take 2 ≠ [' ', 'a']

theorem ends_cons {c : Char} {rest : List Char} (h : isCloser c = true) : Ends (c :: rest) := by
  rintro _ ⟨⟩
  exact h

theorem Ends.number {rest : List Char} (h : Ends rest) : EndsNumber rest := by
  intro c hc
  have hcloser := h c hc
  simp only [isCloser, Bool.or_eq_true, beq_iff_eq] at hcloser
  rcases hcloser with (((rfl | rfl) | rfl) | rfl) | rfl <;> decide

theorem Ends.pointer {rest : List Char} (h : Ends rest) : EndsPointer rest := by
  constructor
  · intro hstar
    cases h _ hstar
  · intro htake
    cases rest with
    | nil => cases htake
    | cons c rest =>
      obtain rfl : c = ' ' := (List.cons.inj htake).1
      cases h ' ' rfl

theorem endsNumber_cons {c : Char} {rest : List Char} (h : c.isDigit = false ∧ c ≠ '-') :
    EndsNumber (c :: rest) := by
  rintro _ ⟨⟩
  exact h

/-- A number is read back from its start, if no digit follows. -/
theorem number_append_inj {n m : Int} {rest rest' : List Char} (hrest : EndsNumber rest)
    (hrest' : EndsNumber rest')
    (h : (toString n).toList ++ rest = (toString m).toList ++ rest') : n = m ∧ rest = rest' := by
  let inNumber (c : Char) : Bool := c.isDigit || c == '-'
  have hnumber : ∀ n : Int, ∀ c ∈ (toString n).toList, inNumber c = true := by
    intro n c hc
    rcases mem_toString hc with hdigit | rfl
    · simp [inNumber, hdigit]
    · simp [inNumber]
  have hover : ∀ {rest : List Char}, EndsNumber rest → rest.takeWhile inNumber = [] := by
    intro rest hrest
    cases rest with
    | nil => rfl
    | cons c rest =>
      obtain ⟨hdigit, hsign⟩ := hrest c rfl
      simp [inNumber, hdigit, hsign]
  have htake := congrArg (List.takeWhile inNumber) h
  rw [List.takeWhile_append_of_pos (hnumber n), List.takeWhile_append_of_pos (hnumber m),
    hover hrest, hover hrest', List.append_nil, List.append_nil] at htake
  exact ⟨toString_inj htake, List.append_cancel_left (htake ▸ h)⟩

/-! ## Address spaces -/

/-- The characters of an address space. -/
def spaceText (space : Int) : List Char := (printSpace space).toList

theorem spaceText_of_ne {space : Int} (h : space ≠ 0) : spaceText space =
    ' ' :: 'a' :: ("ddrspace(".toList ++ ((toString space).toList ++ [')'])) := by
  simp [spaceText, printSpace, h, String.toList_append]

/-- Address spaces other than zero are read back from what begins with them. -/
theorem spaceText_append_inj {s s' : Int} {rest rest' : List Char} (hs : s ≠ 0) (hs' : s' ≠ 0)
    (h : spaceText s ++ rest = spaceText s' ++ rest') : s = s' ∧ rest = rest' := by
  rw [spaceText_of_ne hs, spaceText_of_ne hs'] at h
  have hnumber : (toString s).toList ++ ')' :: rest = (toString s').toList ++ ')' :: rest' := by
    simpa using h
  obtain ⟨rfl, hrest⟩ := number_append_inj (endsNumber_cons (by decide))
    (endsNumber_cons (by decide)) hnumber
  exact ⟨rfl, (List.cons.inj hrest).2⟩

/-! ## Lists -/

/-- The texts of several things, set apart by commas. -/
def commaText (texts : List (List Char)) : List Char := [',', ' '].intercalate texts

theorem toList_intercalate_comma (texts : List String) :
    (", ".intercalate texts).toList = commaText (texts.map String.toList) :=
  String.toList_intercalate

section Lists

variable {α : Type} {write : α → List Char}

/-- In front of what ends it, something is read back from its text. -/
def Determined (write : α → List Char) (a : α) : Prop :=
  ∀ b rest rest', Ends rest → Ends rest' → write a ++ rest = write b ++ rest' → a = b ∧ rest = rest'

/-- The text neither is empty nor starts like the end of a list. -/
def Starts (text : List Char) : Prop :=
  ∃ c rest, text = c :: rest ∧ isCloser c = false

/-- What starts a type closes nothing. -/
theorem Starts.ne {text rest rest' : List Char} {close : Char} (h : Starts text)
    (hclose : isCloser close = true) : text ++ rest ≠ close :: rest' := by
  obtain ⟨c, text, rfl, hc⟩ := h
  intro heq
  obtain rfl : c = close := (List.cons.inj heq).1
  exact Bool.false_ne_true (hc.symm.trans hclose)

/-- What comes behind the first item of a list. -/
def moreText (write : α → List Char) (close : Char) (rest : List Char) : List α → List Char
  | [] => close :: rest
  | as => ',' :: ' ' :: (commaText (as.map write) ++ close :: rest)

theorem commaText_cons (a : α) (as : List α) (close : Char) (rest : List Char) :
    commaText ((a :: as).map write) ++ close :: rest =
      write a ++ moreText write close rest as := by
  cases as with
  | nil => simp [commaText, moreText]
  | cons b as => simp [commaText, moreText, List.intercalate_cons_cons]

/-- Behind an item there is a comma or what closes the list, so that the item ends there. -/
theorem ends_moreText {close : Char} (hclose : isCloser close = true) (rest : List Char)
    (as : List α) : Ends (moreText write close rest as) := by
  cases as with
  | nil => exact ends_cons hclose
  | cons a as => exact ends_cons rfl

/-- A list is read back from its text, if each of its items is. -/
theorem commaText_append_inj {close : Char} (hclose : isCloser close = true) (hcomma : close ≠ ',')
    (hstarts : ∀ a, Starts (write a)) {as bs : List α} {rest rest' : List Char}
    (has : ∀ a ∈ as, Determined write a)
    (h : commaText (as.map write) ++ close :: rest = commaText (bs.map write) ++ close :: rest') :
    as = bs ∧ rest = rest' := by
  induction as generalizing bs with
  | nil =>
    cases bs with
    | nil => exact ⟨rfl, (List.cons.inj h).2⟩
    | cons b bs =>
      rw [commaText_cons] at h
      exact absurd h.symm ((hstarts b).ne hclose)
  | cons a as ih =>
    cases bs with
    | nil =>
      rw [commaText_cons] at h
      exact absurd h ((hstarts a).ne hclose)
    | cons b bs =>
      rw [commaText_cons, commaText_cons] at h
      obtain ⟨rfl, hmore⟩ := has a List.mem_cons_self b _ _ (ends_moreText hclose _ _)
        (ends_moreText hclose _ _) h
      cases as with
      | nil =>
        cases bs with
        | nil => exact ⟨rfl, (List.cons.inj hmore).2⟩
        | cons => exact absurd (List.cons.inj hmore).1 hcomma
      | cons =>
        cases bs with
        | nil => exact absurd (List.cons.inj hmore).1.symm hcomma
        | cons =>
          obtain ⟨heq, hrest⟩ := ih (fun a ha => has a (List.mem_cons_of_mem _ ha))
            (List.cons.inj (List.cons.inj hmore).2).2
          exact ⟨by rw [heq], hrest⟩

end Lists

/-! ## Written forms -/

theorem printAll_eq_map (ts : List Ty) : printAll ts = ts.map print := by
  induction ts with
  | nil => rfl
  | cons t ts ih => rw [printAll, ih, List.map_cons]

theorem text_int (width : Int) : (int width).text = 'i' :: (toString width).toList := by
  simp [text, print, String.toList_append]

theorem text_label (tag : Nat) : (label tag).text = ['l', 'a', 'b', 'e', 'l'] := by
  simp [text, print]

theorem text_pointer (space : Int) :
    (pointer space).text = 'p' :: 't' :: 'r' :: spaceText space := by
  simp [text, print, spaceText, String.toList_append]

theorem text_pointerTo (t : Ty) (space : Int) :
    (pointerTo t space).text = t.text ++ (spaceText space ++ ['*']) := by
  simp [text, print, spaceText, String.toList_append]

theorem text_vector (n : Int) (t : Ty) : (vector n t).text =
    '<' :: ((toString n).toList ++ ' ' :: 'x' :: ' ' :: (t.text ++ ['>'])) := by
  simp [text, print, String.toList_append]

theorem text_array (n : Int) (t : Ty) : (array n t).text =
    '[' :: ((toString n).toList ++ ' ' :: 'x' :: ' ' :: (t.text ++ [']'])) := by
  simp [text, print, String.toList_append]

theorem toList_printAll (ts : List Ty) :
    (", ".intercalate (printAll ts)).toList = commaText (ts.map text) := by
  rw [toList_intercalate_comma, printAll_eq_map, List.map_map]
  rfl

/-- A structure is written as its fields in braces. -/
theorem text_struct (fields : List Ty) : (struct fields false).text =
    '\x7b' :: (commaText (fields.map text) ++ ['\x7d']) := by
  rw [text, print, if_neg Bool.false_ne_true, String.toList_append, String.toList_append,
    toList_printAll]
  rfl

/-- A packed structure has angle brackets around the braces. -/
theorem text_packed (fields : List Ty) : (struct fields true).text =
    '<' :: '\x7b' :: (commaText (fields.map text) ++ ['\x7d', '>']) := by
  rw [text, print, if_pos rfl, String.toList_append, String.toList_append, String.toList_append,
    String.toList_append, toList_printAll]
  simp

/-- What stands between the parentheses of a function type: a parameter, or the sign that more may
follow. -/
def itemText : Option Ty → List Char
  | some t => t.text
  | none => ['.', '.', '.']

/-- What stands between the parentheses of a function type. -/
def items (parameters : List Ty) (variadic : Bool) : List (Option Ty) :=
  parameters.map some ++ if variadic then [none] else []

/-- The parameters of a function are the items that are types. -/
theorem filterMap_items (parameters : List Ty) (variadic : Bool) :
    (items parameters variadic).filterMap id = parameters := by
  cases variadic <;> simp [items]

theorem none_mem_items (parameters : List Ty) (variadic : Bool) :
    none ∈ items parameters variadic ↔ variadic = true := by
  cases variadic <;> simp [items]

/-- Parameters, and whether there may be more, are read off the items. -/
theorem items_inj {ps ps' : List Ty} {v v' : Bool} (h : items ps v = items ps' v') :
    ps = ps' ∧ v = v' := by
  constructor
  · rw [← filterMap_items ps v, h, filterMap_items]
  · rw [Bool.eq_iff_iff, ← none_mem_items ps v, h, none_mem_items]

/-- A function is written as its result and, in brackets, its items. -/
theorem text_function (result : Ty) (parameters : List Ty) (variadic : Bool) :
    (function result parameters variadic).text = result.text ++
      (' ' :: '(' :: (commaText ((items parameters variadic).map itemText) ++ [')'])) := by
  have hitems : (printAll parameters ++ if variadic = true then ["..."] else []).map String.toList =
      (items parameters variadic).map itemText := by
    rw [printAll_eq_map]
    cases variadic <;> simp [items, itemText, text]
  rw [text, print, String.toList_append, String.toList_append, String.toList_append,
    toList_intercalate_comma, hitems]
  simp [text]

/-- No written form starts like the end of a list, or with a dot. -/
theorem exists_head : (t : Ty) → ∃ c rest, t.text = c :: rest ∧ isCloser c = false ∧ c ≠ '.'
  | int width => ⟨'i', _, text_int width, rfl, by decide⟩
  | half => ⟨'h', _, rfl, rfl, by decide⟩
  | float => ⟨'f', _, rfl, rfl, by decide⟩
  | double => ⟨'d', _, rfl, rfl, by decide⟩
  | void => ⟨'v', _, rfl, rfl, by decide⟩
  | metadata => ⟨'m', _, rfl, rfl, by decide⟩
  | label tag => ⟨'l', _, text_label tag, rfl, by decide⟩
  | pointer space => ⟨'p', _, text_pointer space, rfl, by decide⟩
  | vector n t => ⟨'<', _, text_vector n t, rfl, by decide⟩
  | array n t => ⟨'[', _, text_array n t, rfl, by decide⟩
  | struct fields false => ⟨'\x7b', _, text_struct fields, rfl, by decide⟩
  | struct fields true => ⟨'<', _, text_packed fields, rfl, by decide⟩
  | pointerTo t space =>
    have ⟨c, rest, htext, hc⟩ := exists_head t
    ⟨c, _, by rw [text_pointerTo, htext]; rfl, hc⟩
  | function result parameters variadic =>
    have ⟨c, rest, htext, hc⟩ := exists_head result
    ⟨c, _, by rw [text_function, htext]; rfl, hc⟩

theorem starts_text (t : Ty) : Starts t.text :=
  have ⟨c, rest, htext, hc, _⟩ := exists_head t
  ⟨c, rest, htext, hc⟩

theorem starts_itemText (item : Option Ty) : Starts (itemText item) := by
  cases item with
  | none => exact ⟨_, _, rfl, rfl⟩
  | some t => exact starts_text t

/-- A parameter is no sign that more may follow. -/
theorem determined_itemText {item : Option Ty} (h : ∀ t, item = some t → Determined text t) :
    Determined itemText item := by
  have hdots : ∀ {t : Ty} {rest rest' : List Char}, t.text ++ rest ≠ ['.', '.', '.'] ++ rest' := by
    intro t rest rest' heq
    obtain ⟨c, text, htext, _, hc⟩ := exists_head t
    rw [htext] at heq
    exact hc (List.cons.inj heq).1
  intro item' rest rest' hrest hrest' heq
  cases item with
  | none =>
    cases item' with
    | none => exact ⟨rfl, List.append_cancel_left heq⟩
    | some t' => exact absurd heq.symm hdots
  | some t =>
    cases item' with
    | none => exact absurd heq hdots
    | some t' =>
      obtain ⟨rfl, hrest⟩ := h t rfl t' rest rest' hrest hrest' heq
      exact ⟨rfl, hrest⟩

/-! ## What types have behind them -/

/-- What turns a type into that of pointers to it, or of functions that return it. -/
inductive Suffix
  | star (space : Int)
  | call (parameters : List Ty) (variadic : Bool)

namespace Suffix

/-- The type that a suffix makes of another. -/
def apply (t : Ty) : Suffix → Ty
  | star space => pointerTo t space
  | call parameters variadic => function t parameters variadic

/-- The characters of a suffix. -/
def text : Suffix → List Char
  | star space => spaceText space ++ ['*']
  | call parameters variadic =>
    ' ' :: '(' :: (commaText ((items parameters variadic).map itemText) ++ [')'])

theorem text_apply (t : Ty) (suffix : Suffix) : (suffix.apply t).text = t.text ++ suffix.text := by
  cases suffix with
  | star space => exact text_pointerTo t space
  | call parameters variadic => exact text_function t parameters variadic

/-- Suffixes are written one after another, behind the type that they are applied to. -/
theorem text_foldl_apply (t : Ty) (suffixes : List Suffix) :
    (suffixes.foldl apply t).text = t.text ++ suffixes.flatMap text := by
  induction suffixes generalizing t with
  | nil => exact (List.append_nil _).symm
  | cons suffix suffixes ih =>
    rw [List.foldl_cons, ih, text_apply, List.append_assoc, List.flatMap_cons]

/-- A suffix starts with a star or with a blank, which parameters follow at once. -/
theorem text_cases (suffix : Suffix) : suffix = star 0 ∨
    (∃ space, space ≠ 0 ∧ suffix = star space) ∨ ∃ ps v, suffix = call ps v := by
  cases suffix with
  | star space =>
    by_cases h : space = 0
    · exact .inl (by rw [h])
    · exact .inr (.inl ⟨space, h, rfl⟩)
  | call ps v => exact .inr (.inr ⟨ps, v, rfl⟩)

/-- Where a suffix follows, a type does not end. -/
theorem not_ends (suffix : Suffix) (rest : List Char) : ¬ Ends (suffix.text ++ rest) := by
  intro h
  rcases suffix.text_cases with rfl | ⟨space, hspace, rfl⟩ | ⟨ps, v, rfl⟩
  · cases h '*' rfl
  · rw [text, spaceText_of_ne hspace] at h
    cases h ' ' rfl
  · cases h ' ' rfl

theorem endsNumber (suffix : Suffix) (rest : List Char) : EndsNumber (suffix.text ++ rest) := by
  rcases suffix.text_cases with rfl | ⟨space, hspace, rfl⟩ | ⟨ps, v, rfl⟩
  · exact endsNumber_cons (by decide)
  · rw [text, spaceText_of_ne hspace]
    exact endsNumber_cons (by decide)
  · exact endsNumber_cons (by decide)

theorem endsNumber_flatMap (suffixes : List Suffix) {rest : List Char} (hrest : Ends rest) :
    EndsNumber (suffixes.flatMap text ++ rest) := by
  cases suffixes with
  | nil => exact hrest.number
  | cons suffix suffixes =>
    rw [List.flatMap_cons, List.append_assoc]
    exact suffix.endsNumber _

/-- Pointers and functions are told apart by how their suffixes begin. -/
theorem star_ne_call (space : Int) (ps : List Ty) (v : Bool) (rest rest' : List Char) :
    (star space).text ++ rest ≠ (call ps v).text ++ rest' := by
  intro h
  by_cases hspace : space = 0
  · rw [hspace] at h
    cases (List.cons.inj h).1
  · rw [text, spaceText_of_ne hspace] at h
    cases (List.cons.inj (List.cons.inj h).2).1

/-- A star is read back with its address space. -/
theorem star_inj {space : Int} {suffix : Suffix} {rest rest' : List Char}
    (h : (star space).text ++ rest = suffix.text ++ rest') :
    suffix = star space ∧ rest = rest' := by
  cases suffix with
  | call ps v => exact absurd h (star_ne_call space ps v rest rest')
  | star space' =>
    rw [text, text, List.append_assoc, List.append_assoc] at h
    by_cases hspace : space = 0 <;> by_cases hspace' : space' = 0
    · rw [hspace, hspace'] at h
      exact ⟨by rw [hspace, hspace'], (List.cons.inj h).2⟩
    · rw [hspace, spaceText_of_ne hspace'] at h
      cases (List.cons.inj h).1
    · rw [hspace', spaceText_of_ne hspace] at h
      cases (List.cons.inj h).1
    · obtain ⟨rfl, hrest⟩ := spaceText_append_inj hspace hspace' h
      exact ⟨rfl, (List.cons.inj hrest).2⟩

/-- The parameters of a function type are read back, if each of them is. -/
theorem call_inj {ps : List Ty} {v : Bool} {suffix : Suffix} {rest rest' : List Char}
    (hps : ∀ t ∈ ps, Determined Ty.text t)
    (h : (call ps v).text ++ rest = suffix.text ++ rest') : suffix = call ps v ∧ rest = rest' := by
  cases suffix with
  | star space => exact absurd h.symm (star_ne_call space ps v rest' rest)
  | call ps' v' =>
    have hitems : ∀ item ∈ items ps v, Determined itemText item := by
      refine fun item hitem => determined_itemText fun t ht => hps t ?_
      rw [← filterMap_items ps v]
      exact List.mem_filterMap.mpr ⟨item, hitem, ht⟩
    have hparens : (')' : Char) ≠ ',' := by decide
    obtain ⟨heq, hrest⟩ := commaText_append_inj rfl hparens starts_itemText hitems
      (by simpa [text] using h)
    obtain ⟨rfl, rfl⟩ := items_inj heq
    exact ⟨rfl, hrest⟩

end Suffix

/-! ## Reading a type from its start -/

/-- Whether a type is made from no other by a suffix. -/
def isCore : Ty → Bool
  | pointerTo _ _ | function _ _ _ => false
  | _ => true

/-- Every type is an innermost type with suffixes behind it. -/
theorem exists_core : (t : Ty) → ∃ (core : Ty) (suffixes : List Suffix), core.isCore = true ∧
    t = suffixes.foldl Suffix.apply core
  | pointerTo t space =>
    have ⟨core, suffixes, hcore, ht⟩ := exists_core t
    ⟨core, suffixes ++ [.star space], hcore, by rw [List.foldl_append, ← ht]; rfl⟩
  | function result parameters variadic =>
    have ⟨core, suffixes, hcore, ht⟩ := exists_core result
    ⟨core, suffixes ++ [.call parameters variadic], hcore, by rw [List.foldl_append, ← ht]; rfl⟩
  | int width => ⟨int width, [], rfl, rfl⟩
  | half => ⟨half, [], rfl, rfl⟩
  | float => ⟨float, [], rfl, rfl⟩
  | double => ⟨double, [], rfl, rfl⟩
  | void => ⟨void, [], rfl, rfl⟩
  | metadata => ⟨metadata, [], rfl, rfl⟩
  | label tag => ⟨label tag, [], rfl, rfl⟩
  | pointer space => ⟨pointer space, [], rfl, rfl⟩
  | vector n t => ⟨vector n t, [], rfl, rfl⟩
  | array n t => ⟨array n t, [], rfl, rfl⟩
  | struct fields packed => ⟨struct fields packed, [], rfl, rfl⟩

/-- Whether a type is a pointer that has no target. -/
def isOpaque : Ty → Bool
  | pointer _ => true
  | _ => false

/-- What may follow a type when it is read: no number goes on, and no address space or star where it
could be that of a pointer without a target. -/
def Follows (t : Ty) (rest : List Char) : Prop :=
  EndsNumber rest ∧ (t.isOpaque = true → EndsPointer rest)

/-- A type is read back from the start of a written form: that is the form of the type with suffixes
behind it. -/
def Reads (t : Ty) : Prop :=
  ∀ t' rest rest', t.Follows rest → Ends rest' → t.text ++ rest = t'.text ++ rest' →
    ∃ suffixes : List Suffix,
      t' = suffixes.foldl Suffix.apply t ∧ rest = suffixes.flatMap Suffix.text ++ rest'

/-- A type that is read back is determined where a type ends. -/
theorem Reads.determined {t : Ty} (h : t.Reads) : Determined text t := by
  intro t' rest rest' hrest hrest' heq
  obtain ⟨suffixes, rfl, rfl⟩ := h t' rest rest' ⟨hrest.number, fun _ => hrest.pointer⟩ hrest' heq
  cases suffixes with
  | nil => exact ⟨rfl, rfl⟩
  | cons suffix suffixes =>
    rw [List.flatMap_cons, List.append_assoc] at hrest
    exact absurd hrest (suffix.not_ends _)

/-- A type with one more suffix is read back if the type is, and the suffix. -/
theorem Reads.apply {t : Ty} {suffix : Suffix} (h : t.Reads)
    (hfollows : ∀ rest, t.Follows (suffix.text ++ rest))
    (hsuffix : ∀ {suffix' rest rest'}, suffix.text ++ rest = Suffix.text suffix' ++ rest' →
      suffix' = suffix ∧ rest = rest') : (suffix.apply t).Reads := by
  intro t' rest rest' _ hrest' heq
  rw [Suffix.text_apply, List.append_assoc] at heq
  obtain ⟨suffixes, rfl, hrest⟩ := h t' _ rest' (hfollows rest) hrest' heq
  cases suffixes with
  | nil => exact absurd (hrest ▸ hrest') (suffix.not_ends rest)
  | cons suffix' suffixes =>
    rw [List.flatMap_cons, List.append_assoc] at hrest
    obtain ⟨rfl, rfl⟩ := hsuffix hrest
    exact ⟨suffixes, rfl, rfl⟩

/-- What comes behind an innermost type: no number goes on, and an address space is that of a
star. -/
structure Behind (rest : List Char) : Prop where
  number : EndsNumber rest
  star : ∀ space more, space ≠ 0 → rest = spaceText space ++ more → more.head? = some '*'

/-- Behind suffixes a type may be read to where it ends. -/
theorem behind_flatMap (suffixes : List Suffix) {rest : List Char} (hrest : Ends rest) :
    Behind (suffixes.flatMap Suffix.text ++ rest) where
  number := Suffix.endsNumber_flatMap suffixes hrest
  star space more hspace h := by
    cases suffixes with
    | nil =>
      rw [spaceText_of_ne hspace] at h
      cases hrest ' ' (by rw [← List.nil_append rest]; exact congrArg List.head? h)
    | cons suffix suffixes =>
      rw [List.flatMap_cons, List.append_assoc] at h
      rcases suffix.text_cases with rfl | ⟨space', hspace', rfl⟩ | ⟨ps, v, rfl⟩
      · rw [spaceText_of_ne hspace] at h
        cases (List.cons.inj h).1
      · rw [Suffix.text, List.append_assoc] at h
        obtain ⟨_, rfl⟩ := spaceText_append_inj hspace' hspace h
        rfl
      · rw [spaceText_of_ne hspace] at h
        cases (List.cons.inj (List.cons.inj h).2).1

/-- The first character of an innermost type. -/
def head : Ty → Char
  | int _ => 'i'
  | half => 'h'
  | float => 'f'
  | double => 'd'
  | void => 'v'
  | metadata => 'm'
  | label _ => 'l'
  | pointer _ => 'p'
  | vector _ _ | struct _ true => '<'
  | array _ _ => '['
  | struct _ false => '\x7b'
  | pointerTo t _ => t.head
  | function result _ _ => result.head

theorem head?_text : (t : Ty) → t.text.head? = some t.head
  | int width => by rw [text_int]; rfl
  | half | float | double | void | metadata => rfl
  | label tag => by rw [text_label]; rfl
  | pointer space => by rw [text_pointer]; rfl
  | vector n t => by rw [text_vector]; rfl
  | array n t => by rw [text_array]; rfl
  | struct fields false => by rw [text_struct]; rfl
  | struct fields true => by rw [text_packed]; rfl
  | pointerTo t space => by rw [text_pointerTo, List.head?_append, head?_text t]; rfl
  | function result parameters variadic => by
    rw [text_function, List.head?_append, head?_text result]; rfl

/-- Types that are written alike begin alike. -/
theorem head_eq {t t' : Ty} {rest rest' : List Char} (h : t.text ++ rest = t'.text ++ rest') :
    t.head = t'.head := by
  have hhead := congrArg List.head? h
  rw [List.head?_append, List.head?_append, head?_text, head?_text] at hhead
  exact Option.some_inj.mp hhead

/-- A type is read back if it is told from all innermost types. -/
theorem Reads.of_core {t : Ty} (h : ∀ core rest rest', isCore core = true → t.Follows rest →
    Behind rest' → t.head = core.head → t.text ++ rest = core.text ++ rest' →
      core = t ∧ rest = rest') : t.Reads := by
  intro t' rest rest' hrest hrest' heq
  obtain ⟨core, suffixes, hcore, rfl⟩ := exists_core t'
  rw [Suffix.text_foldl_apply, List.append_assoc] at heq
  obtain ⟨rfl, rfl⟩ := h core rest _ hcore hrest (behind_flatMap suffixes hrest') (head_eq heq) heq
  exact ⟨suffixes, rfl, rfl⟩

/-- Whether the written form of a type is a word. -/
def isWord : Ty → Bool
  | half | float | double | void | metadata => true
  | _ => false

/-- A word is the only core that begins as it does. -/
theorem eq_of_head_word {t core : Ty} (ht : t.isWord = true) (hcore : core.isCore = true)
    (hhead : t.head = core.head) : core = t := by
  cases t with
  | half | float | double | void | metadata =>
    cases core with
    | struct fields packed => cases packed <;> cases hhead
    | pointerTo | function => cases hcore
    | _ => first | rfl | cases hhead
  | _ => cases ht

/-- Words are read back: nothing else begins as they do. -/
theorem reads_word {t : Ty} (ht : t.isWord = true) : t.Reads := by
  refine .of_core fun core rest rest' hcore _ _ hhead h => ?_
  obtain rfl := eq_of_head_word ht hcore hhead
  exact ⟨rfl, List.append_cancel_left h⟩

/-- Widths of integers are read back. -/
theorem reads_int (width : Int) : (int width).Reads := by
  refine .of_core fun core rest rest' hcore hrest hrest' hhead h => ?_
  cases core with
  | int width' =>
    rw [text_int, text_int] at h
    obtain ⟨rfl, rfl⟩ := number_append_inj hrest.1 hrest'.number (List.cons.inj h).2
    exact ⟨rfl, rfl⟩
  | struct fields packed => cases packed <;> cases hhead
  | pointerTo | function => cases hcore
  | _ => cases hhead

/-- A pointer without a target is read back where no address space or star follows. -/
theorem reads_pointer (space : Int) : (pointer space).Reads := by
  refine .of_core fun core rest rest' hcore hrest hrest' hhead h => ?_
  cases core with
  | pointer space' =>
    rw [text_pointer, text_pointer] at h
    have h : spaceText space ++ rest = spaceText space' ++ rest' := by simpa using h
    obtain ⟨hstar, hspaceText⟩ := hrest.2 rfl
    by_cases hspace : space = 0 <;> by_cases hspace' : space' = 0
    · rw [hspace, hspace'] at h
      exact ⟨by rw [hspace, hspace'], h⟩
    · rw [hspace, spaceText_of_ne hspace'] at h
      exact absurd (congrArg (List.take 2) h) hspaceText
    · rw [hspace'] at h
      exact absurd (hrest'.star space rest hspace h.symm) hstar
    · obtain ⟨rfl, rfl⟩ := spaceText_append_inj hspace hspace' h
      exact ⟨rfl, rfl⟩
  | struct fields packed => cases packed <;> cases hhead
  | pointerTo | function => cases hcore
  | _ => cases hhead

/-- A number of elements and their type are read back, if the type is. -/
theorem sequence_inj {n n' : Int} {t t' : Ty} {close : Char} {rest rest' : List Char}
    (hclose : isCloser close = true) (ht : Determined text t)
    (h : (toString n).toList ++ ' ' :: 'x' :: ' ' :: (t.text ++ close :: rest) =
      (toString n').toList ++ ' ' :: 'x' :: ' ' :: (t'.text ++ close :: rest')) :
    n = n' ∧ t = t' ∧ rest = rest' := by
  have hblank : ∀ {rest : List Char}, EndsNumber (' ' :: rest) := endsNumber_cons (by decide)
  obtain ⟨rfl, helement⟩ := number_append_inj hblank hblank h
  obtain ⟨rfl, hrest⟩ := ht t' _ _ (ends_cons hclose) (ends_cons hclose)
    (List.cons.inj (List.cons.inj (List.cons.inj helement).2).2).2
  exact ⟨rfl, rfl, (List.cons.inj hrest).2⟩

/-- No number starts with a brace. -/
theorem number_ne_brace (n : Int) (rest rest' : List Char) :
    (toString n).toList ++ rest ≠ '\x7b' :: rest' := by
  intro h
  obtain ⟨c, digits, hn⟩ := exists_toString n
  obtain rfl : c = '\x7b' := by
    rw [hn] at h
    exact (List.cons.inj h).1
  rcases mem_toString (hn ▸ List.mem_cons_self) with hdigit | hsign
  · cases hdigit
  · cases hsign

/-- A vector is read back if its elements are. -/
theorem reads_vector (n : Int) {t : Ty} (ht : Determined text t) : (vector n t).Reads := by
  refine .of_core fun core rest rest' hcore _ _ hhead h => ?_
  cases core with
  | vector n' t' =>
    obtain ⟨rfl, rfl, rfl⟩ := sequence_inj rfl ht (by simpa [text_vector] using h)
    exact ⟨rfl, rfl⟩
  | struct fields packed =>
    cases packed with
    | false => cases hhead
    | true =>
      rw [text_vector, text_packed] at h
      exact absurd (by simpa using h) (number_ne_brace n _ _)
  | pointerTo | function => cases hcore
  | _ => cases hhead

/-- An array is read back if its elements are. -/
theorem reads_array (n : Int) {t : Ty} (ht : Determined text t) : (array n t).Reads := by
  refine .of_core fun core rest rest' hcore _ _ hhead h => ?_
  cases core with
  | array n' t' =>
    obtain ⟨rfl, rfl, rfl⟩ := sequence_inj rfl ht (by simpa [text_array] using h)
    exact ⟨rfl, rfl⟩
  | struct fields packed => cases packed <;> cases hhead
  | pointerTo | function => cases hcore
  | _ => cases hhead

/-- The fields of a struct are read back, if each of them is. -/
theorem fields_inj {fields fields' : List Ty} {rest rest' : List Char}
    (hfields : ∀ t ∈ fields, Determined text t)
    (h : commaText (fields.map text) ++ '\x7d' :: rest =
      commaText (fields'.map text) ++ '\x7d' :: rest') : fields = fields' ∧ rest = rest' :=
  commaText_append_inj rfl (by decide) starts_text hfields h

/-- A structure is read back if its fields are. -/
theorem reads_struct {fields : List Ty} (packed : Bool)
    (hfields : ∀ t ∈ fields, Determined text t) : (struct fields packed).Reads := by
  refine .of_core fun core rest rest' hcore _ _ hhead h => ?_
  cases packed with
  | false =>
    cases core with
    | struct fields' packed =>
      cases packed with
      | true => cases hhead
      | false =>
        obtain ⟨rfl, rfl⟩ := fields_inj hfields (by simpa [text_struct] using h)
        exact ⟨rfl, rfl⟩
    | pointerTo | function => cases hcore
    | _ => cases hhead
  | true =>
    cases core with
    | struct fields' packed =>
      cases packed with
      | false => cases hhead
      | true =>
        obtain ⟨rfl, hrest⟩ := fields_inj hfields (by simpa [text_packed] using h)
        exact ⟨rfl, (List.cons.inj hrest).2⟩
    | vector n t =>
      rw [text_vector, text_packed] at h
      exact absurd (by simpa using h.symm) (number_ne_brace n _ _)
    | pointerTo | function => cases hcore
    | _ => cases hhead

/-! ## Legible types -/

mutual

/-- Whether the type has neither labels nor pointers to pointers without a target in it. -/
def legible : Ty → Bool
  | label _ => false
  | pointerTo (pointer _) _ => false
  | pointerTo t _ => legible t
  | vector _ t | array _ t => legible t
  | struct fields _ => legibleAll fields
  | function result parameters _ => legible result && legibleAll parameters
  | _ => true

/-- Whether all the types are legible. -/
def legibleAll : List Ty → Bool
  | [] => true
  | t :: rest => legible t && legibleAll rest

end

/-- What a legible pointer points to is legible and no pointer without a target. -/
theorem legible_pointerTo {t : Ty} {space : Int} (h : (pointerTo t space).legible = true) :
    t.legible = true ∧ t.isOpaque = false := by
  cases t with
  | pointer => cases h
  | _ => exact ⟨h, rfl⟩

mutual

/-- A legible type is read back from the start of a written form. -/
theorem reads : (t : Ty) → t.legible = true → t.Reads
  | int width, _ => reads_int width
  | half, _ => reads_word rfl
  | float, _ => reads_word rfl
  | double, _ => reads_word rfl
  | void, _ => reads_word rfl
  | metadata, _ => reads_word rfl
  | pointer space, _ => reads_pointer space
  | pointerTo t space, h => by
    obtain ⟨ht, htarget⟩ := legible_pointerTo h
    show (Suffix.apply t (.star space)).Reads
    refine (reads t ht).apply (fun rest => ⟨Suffix.endsNumber _ rest, fun hopaque => ?_⟩)
      Suffix.star_inj
    exact (Bool.false_ne_true (htarget ▸ hopaque)).elim
  | vector n t, h => reads_vector n (reads t h).determined
  | array n t, h => reads_array n (reads t h).determined
  | struct fields packed, h => reads_struct packed (determined_of_legibleAll fields h)
  | function result parameters variadic, h => by
    obtain ⟨hresult, hparameters⟩ := Bool.and_eq_true_iff.mp h
    show (Suffix.apply result (.call parameters variadic)).Reads
    refine (reads result hresult).apply
      (fun rest => ⟨Suffix.endsNumber _ rest, fun _ => ?_⟩)
      (Suffix.call_inj (determined_of_legibleAll parameters hparameters))
    constructor <;> simp [Suffix.text]

/-- Each of several legible types is determined where a type ends. -/
theorem determined_of_legibleAll : (ts : List Ty) → legibleAll ts = true →
    ∀ t ∈ ts, Determined text t
  | [], _, _, h => nomatch h
  | t :: rest, hlegible, _, h => by
    obtain ⟨ht, hrest⟩ := Bool.and_eq_true_iff.mp hlegible
    rcases List.mem_cons.mp h with heq | h
    · exact heq ▸ (reads t ht).determined
    · exact determined_of_legibleAll rest hrest _ h

end

/-- A legible type is the only one with its written form. -/
theorem eq_of_print_eq {t t' : Ty} (h : t.legible = true) (hprint : t.print = t'.print) :
    t = t' := by
  have hends : Ends [] := fun _ h => nomatch h
  refine ((reads t h).determined t' [] [] hends hends ?_).1
  rw [List.append_nil, List.append_nil]
  exact congrArg String.toList hprint

end SsaDebugInfo.Ty
