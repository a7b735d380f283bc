import SsaDebugInfo.Ir.Print
import SsaDebugInfo.Script.Session
import SsaDebugInfo.Proofs.Layout.Legible
import SsaDebugInfo.Proofs.Text.Identifier

/-!
# Names in the texts of operands

As an operand, a value with a name is written as its type, a sign and its name; the sign tells the
values of a function from those of a module. No written form of a type holds either sign, so that
the name is what follows the first of them, and can be read back.

- `Ty.unsigned_text`: written types hold no sign.
- `Operand.readName`: the name that the text of an operand ends in.
- `Store.operandText_of_nameOf?`: values with a name can be written, and their names are read back.
- `Store.names_legible`: values with different names are written differently.
-/

namespace SsaDebugInfo

open Text

/-! ## Written types -/

namespace Operand

/-- Whether a character is the sign in front of the name of a value. -/
def isSign (c : Char) : Bool := c == '%' || c == '@'

/-- No character of the text is a sign. -/
def Unsigned (text : List Char) : Prop := ∀ c ∈ text, isSign c = false

@[simp] theorem unsigned_nil : Unsigned [] := fun _ h => nomatch h

@[simp] theorem unsigned_cons {c : Char} {text : List Char} :
    Unsigned (c :: text) ↔ isSign c = false ∧ Unsigned text :=
  List.forall_mem_cons

@[simp] theorem unsigned_append {text text' : List Char} :
    Unsigned (text ++ text') ↔ Unsigned text ∧ Unsigned text' :=
  List.forall_mem_append

@[simp] theorem unsigned_repr (n : Int) : Unsigned n.repr.toList := by
  rw [← Int.toString_eq_repr]
  intro c hc
  by_contra hsign
  rw [Bool.not_eq_false, isSign, Bool.or_eq_true, beq_iff_eq, beq_iff_eq] at hsign
  rcases hsign with rfl | rfl <;> exact not_mem_toString rfl n hc

/-- Texts in a list have no sign if none of them has. -/
theorem unsigned_commaText {texts : List (List Char)} (h : ∀ text ∈ texts, Unsigned text) :
    Unsigned (Ty.commaText texts) := by
  induction texts with
  | nil => exact unsigned_nil
  | cons text texts ih =>
    obtain ⟨htext, htexts⟩ := List.forall_mem_cons.mp h
    cases texts with
    | nil => simpa [Ty.commaText] using htext
    | cons text' texts =>
      have hmore : Unsigned ([',', ' '].intercalate (text' :: texts)) := ih htexts
      rw [Ty.commaText, List.intercalate_cons_cons]
      simp [htext, hmore, isSign]

theorem unsigned_spaceText (space : Int) : Unsigned (Ty.spaceText space) := by
  by_cases h : space = 0
  · simp [Ty.spaceText, Ty.printSpace, h]
  · rw [Ty.spaceText_of_ne h]
    simp [isSign]

end Operand

namespace Ty

open Operand

/-- The parameters of a function are written without a sign, with or without more of them. -/
theorem unsigned_items {parameters : List Ty} (h : ∀ t ∈ parameters, Unsigned t.text)
    (variadic : Bool) : Unsigned (commaText ((items parameters variadic).map itemText)) := by
  refine unsigned_commaText fun text htext => ?_
  obtain ⟨item, hitem, rfl⟩ := List.mem_map.mp htext
  cases item with
  | none => simp [itemText, isSign]
  | some t =>
    have ht : t ∈ (items parameters variadic).filterMap id := List.mem_filterMap.mpr ⟨_, hitem, rfl⟩
    rw [filterMap_items] at ht
    exact h t ht

/-- The fields of a structure are written without a sign if each of them is. -/
theorem unsigned_fields {fields : List Ty} (h : ∀ t ∈ fields, Unsigned t.text) :
    Unsigned (commaText (fields.map text)) := by
  refine unsigned_commaText fun text htext => ?_
  obtain ⟨t, ht, rfl⟩ := List.mem_map.mp htext
  exact h t ht

mutual

/-- The written form of a type holds no sign. -/
theorem unsigned_text : (t : Ty) → Unsigned t.text
  | int width => by simp [text_int, isSign]
  | half | float | double | void | metadata => by simp [text, print, isSign]
  | label tag => by simp [text_label, isSign]
  | pointer space => by simp [text_pointer, unsigned_spaceText, isSign]
  | pointerTo t space => by simp [text_pointerTo, unsigned_text t, unsigned_spaceText, isSign]
  | vector n t => by simp [text_vector, unsigned_text t, isSign]
  | array n t => by simp [text_array, unsigned_text t, isSign]
  | struct fields false => by
    simp [text_struct, unsigned_fields (unsigned_all fields), isSign]
  | struct fields true => by
    simp [text_packed, unsigned_fields (unsigned_all fields), isSign]
  | function result parameters variadic => by
    simp [text_function, unsigned_text result, unsigned_items (unsigned_all parameters), isSign]

/-- The written forms of several types hold no sign. -/
theorem unsigned_all : (ts : List Ty) → ∀ t ∈ ts, Unsigned t.text
  | [], _, h => nomatch h
  | t :: rest, u, h => by
    rcases List.mem_cons.mp h with heq | h
    · exact heq ▸ unsigned_text t
    · exact unsigned_all rest u h

end

end Ty

/-! ## Reading names back -/

namespace Operand

/-- The name that the text of an operand ends in, behind the first sign. -/
def readName (text : String) : String :=
  String.ofList (Identifier.readChars (text.toList.dropWhile (!isSign ·)).tail)

/-- A name is read back behind the first sign. -/
theorem readName_eq {text name : String} (front : List Char) (sign : Char)
    (hfront : Unsigned front) (hsign : isSign sign = true)
    (htext : text.toList = front ++ sign :: (Identifier.print name).toList) :
    readName text = name := by
  have hdrop : text.toList.dropWhile (!isSign ·) = sign :: (Identifier.print name).toList := by
    rw [htext, List.dropWhile_append_of_pos fun c hc => by rw [hfront c hc]; rfl,
      List.dropWhile_cons_of_neg (by rw [hsign]; decide)]
  rw [readName, hdrop, List.tail_cons, Identifier.print, String.toList_ofList,
    Identifier.readChars_printChars, String.ofList_toList]

end Operand

namespace Store

variable {s : Store} {v : ValueId} {name : String}

/-- A value with a name in its function is written as its type and its name. -/
theorem operandText_of_site? {o : Value} {site : Site} (ho : s.get? v = some o)
    (hsite : o.site? = some site) :
    s.operandText v = .ok (o.type.print ++ " %" ++ Identifier.print site.name) := by
  unfold operandText operandTextWithin
  rw [ho]
  obtain ⟨_, shape, _, _⟩ := o
  cases shape <;> cases hsite <;> rfl

/-- A global variable is written as the address of its data and its name. -/
theorem operandText_of_global? {o : Value} {g : Global} (ho : s.get? v = some o)
    (hglobal : o.global? = some g) :
    s.operandText v = .ok (o.type.print ++ "* @" ++ Identifier.print g.name) := by
  unfold operandText operandTextWithin
  rw [ho]
  obtain ⟨_, shape, _, _⟩ := o
  cases shape with
  | global =>
    cases hglobal
    rfl
  | _ => cases hglobal

/-- A value with a name can be written as an operand, and its name is read back. -/
theorem operandText_of_nameOf? (h : s.nameOf? (.value v) = some name) :
    ∃ text, s.operandText v = .ok text ∧ Operand.readName text = name := by
  obtain ⟨o, ho, hname⟩ := Option.bind_eq_some_iff.mp h
  have htype := Ty.unsigned_text o.type
  cases hglobal : o.global? with
  | some g =>
    obtain rfl : g.name = name := by
      obtain ⟨_, shape, _, _⟩ := o
      cases shape with
      | global =>
        cases hglobal
        exact Option.some_inj.mp hname
      | _ => cases hglobal
    refine ⟨_, operandText_of_global? ho hglobal, ?_⟩
    refine Operand.readName_eq (o.type.text ++ ['*', ' ']) '@' ?_ rfl ?_
    · simp [htype, Operand.isSign]
    · simp [Ty.text, String.toList_append]
  | none =>
    obtain ⟨site, hsite, rfl⟩ : ∃ site, o.site? = some site ∧ site.name = name := by
      obtain ⟨_, shape, _, _⟩ := o
      cases shape with
      | global => cases hglobal
      | _ => exact Option.map_eq_some_iff.mp hname
    refine ⟨_, operandText_of_site? ho hsite, ?_⟩
    refine Operand.readName_eq (o.type.text ++ [' ']) '%' ?_ rfl ?_
    · simp [htype, Operand.isSign]
    · simp [Ty.text, String.toList_append]

/-- Different names are written differently, whatever characters they hold. A value with a name can
be written as an operand, and no value with another name has its text, of that type or any other. -/
theorem names_legible :
    (∀ a b : String, Identifier.print a = Identifier.print b → a = b) ∧
      ∀ (s : Store) (v : ValueId) (a : String), s.nameOf? (.value v) = some a →
        ∃ text, s.operandText v = .ok text ∧
          ∀ w b, s.nameOf? (.value w) = some b → s.operandText w = .ok text → a = b := by
  refine ⟨fun a b => Identifier.print_inj, fun s v a hv => ?_⟩
  obtain ⟨text, htext, ha⟩ := operandText_of_nameOf? hv
  refine ⟨text, htext, fun w b hw htext' => ?_⟩
  obtain ⟨_, hread, hb⟩ := operandText_of_nameOf? hw
  obtain rfl := Except.ok.inj (htext'.symm.trans hread)
  exact ha.symm.trans hb

end Store

namespace Script.Session

open Store

/-- Three values of one type, two of them with a name that ends in a double quote. The name of the
third one has a backslash in front of the quote. -/
def quoted : List Command :=
  [.run (.make (.argument "a\"" (.int 32))) (some "x") none,
   .run (.make (.argument "a\"" (.int 32))) (some "y") none,
   .run (.make (.argument "a\\\"" (.int 32))) (some "z") none]

/-- The first two values are written alike. The third one is not. -/
theorem names_legible_quoted : ∃ text,
    (runAll [] {} quoted).1.store.operandText ⟨0⟩ = .ok text ∧
      (runAll [] {} quoted).1.store.operandText ⟨1⟩ = .ok text ∧
      (runAll [] {} quoted).1.store.operandText ⟨2⟩ ≠ .ok text := by
  have hnames : (List.range 3).map
      (fun n => (runAll [] {} quoted).1.store.nameOf? (.value ⟨n⟩)) =
        [some "a\"", some "a\"", some "a\\\""] := by decide +kernel
  obtain ⟨h0, h1, h2⟩ : _ ∧ _ ∧ _ := by simpa [List.range_succ] using hnames
  have hsame : (runAll [] {} quoted).1.store.operandText ⟨1⟩ =
      (runAll [] {} quoted).1.store.operandText ⟨0⟩ := by decide +kernel
  obtain ⟨text, htext, honly⟩ := names_legible.2 _ ⟨0⟩ _ h0
  refine ⟨text, htext, hsame.trans htext, fun htext2 => ?_⟩
  exact absurd (honly ⟨2⟩ _ h2 htext2) (by decide)

end Script.Session

end SsaDebugInfo
