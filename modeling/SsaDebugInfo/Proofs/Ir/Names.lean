import SsaDebugInfo.Ir.Names
import SsaDebugInfo.Proofs.Store.Standing

/-!
# Names that do not meet

A generated name ends in a dot and a number, and the numbers of a function grow. So a generated
name is new if the names that are registered are behind the next number: none of them ends in that
number or in a greater one (`Behind`). A naming is in step if this is so in all functions, and no
two values of a function have the same name (`Naming.InStep`).

- `Function.freshName_not_mem`: the names that a function gives are new.
- `Naming.InStep.leave`, `Naming.InStep.enter`: values leave functions and enter them.
-/

namespace SsaDebugInfo

/-! ## Numbers at the end of names -/

/-- The number that a name ends in after a dot, as generated names do. -/
def numberOf? (name : String) : Option Nat :=
  let digits := (name.toList.reverse.takeWhile Char.isDigit).reverse
  let n := Nat.ofDigitChars 10 digits 0
  if '.' :: (toString n).toList <:+ name.toList then some n else none

theorem toList_toString (n : Nat) : (toString n).toList = Nat.toDigits 10 n := by
  rw [Nat.toString_eq_ofList_toDigits, String.toList_ofList]

/-- The number of a name stands behind its last dot, as it is written. -/
theorem numberOf?_eq_some {name : String} {n : Nat} :
    numberOf? name = some n ↔ '.' :: (toString n).toList <:+ name.toList := by
  unfold numberOf?
  dsimp only
  rw [Option.ite_none_right_eq_some, Option.some_inj]
  constructor
  · rintro ⟨h, rfl⟩
    exact h
  · intro h
    -- the dot ends the digits that are read off the end
    have hdigits : (name.toList.reverse.takeWhile Char.isDigit).reverse = Nat.toDigits 10 n := by
      obtain ⟨base, hbase⟩ := h
      rw [← hbase, toList_toString, List.reverse_append, List.reverse_cons, List.append_assoc,
        List.takeWhile_append_of_pos]
      · simp
      · exact fun c hc =>
          Nat.isDigit_of_mem_toDigits (by decide) (by decide) (List.mem_reverse.mp hc)
    rw [hdigits, Nat.ofDigitChars_toDigits (by decide) (by decide)]
    exact ⟨h, rfl⟩

/-- The number of a generated name is the one that it was generated with. -/
theorem numberOf?_generated (base : String) (n : Nat) :
    numberOf? (base ++ "." ++ toString n) = some n := by
  refine numberOf?_eq_some.mpr ⟨base.toList, ?_⟩
  simp [String.toList_append]

example : numberOf? "a.b.12" = some 12 := by decide +kernel

/-- A name that ends in no number, or in one before the next. -/
def Behind (name : String) (next : Nat) : Prop :=
  ∀ n ∈ numberOf? name, n < next

instance (name : String) (next : Nat) : Decidable (Behind name next) :=
  inferInstanceAs (Decidable (∀ n ∈ numberOf? name, n < next))

variable {name base : String} {next next' : Nat}

theorem Behind.mono (h : Behind name next) (hle : next ≤ next') : Behind name next' :=
  fun n hn => Nat.lt_of_lt_of_le (h n hn) hle

theorem behind_empty (next : Nat) : Behind "" next := by
  have hnone : numberOf? "" = none := by decide
  intro n hn
  rw [hnone] at hn
  cases hn

/-- A name that is generated with a number is not behind that number. -/
theorem not_behind_generated (base : String) (n : Nat) :
    ¬ Behind (base ++ "." ++ toString n) n :=
  fun h => Nat.lt_irrefl n (h n (numberOf?_generated base n))

/-- It is behind the next one. -/
theorem behind_generated (base : String) (n : Nat) :
    Behind (base ++ "." ++ toString n) (n + 1) := by
  intro m hm
  rw [numberOf?_generated] at hm
  obtain rfl := Option.mem_some.mp hm
  exact Nat.lt_succ_self n

/-! ## Names that functions give -/

namespace Function

variable {f : Function}

/-- A function gives a generated name, or the one that is asked for if nothing has it. -/
theorem freshName_cases (f : Function) (base : String) :
    (f.mustRename base = true ∧ ∃ stem, f.freshName base = stem ++ "." ++ toString f.nextName) ∨
      f.mustRename base = false ∧ f.freshName base = base ∧ base ∉ f.names := by
  unfold freshName mustRename
  by_cases hempty : base = ""
  · subst hempty
    exact .inl ⟨rfl, "UNN", rfl⟩
  · by_cases htaken : base ∈ f.names
    · exact .inl ⟨by simp [htaken], base, by simp [hempty, htaken]⟩
    · exact .inr ⟨by simp [hempty, htaken], by simp [hempty, htaken], htaken⟩

/-- The name that a function gives is new, whatever name is asked for. -/
theorem freshName_not_mem (h : ∀ name ∈ f.names, Behind name f.nextName) (base : String) :
    f.freshName base ∉ f.names := by
  rcases f.freshName_cases base with ⟨_, stem, hfresh⟩ | ⟨_, hfresh, hnew⟩
  · intro hmem
    rw [hfresh] at hmem
    exact not_behind_generated stem _ (h _ hmem)
  · rwa [hfresh]

/-- A fresh name that is new is put behind the others. -/
theorem names_register (hnew : f.freshName base ∉ f.names) :
    (f.register base).names = f.names ++ [f.freshName base] :=
  if_neg (by rwa [List.contains_iff_mem])

/-- Registering a name never counts back. -/
theorem nextName_register (f : Function) (base : String) :
    f.nextName ≤ (f.register base).nextName := by
  show _ ≤ if f.mustRename base then f.nextName + 1 else f.nextName
  split
  · exact Nat.le_succ _
  · exact Nat.le_refl _

/-- A generated name raises the number that comes next. -/
theorem behind_freshName (hbase : Behind base f.nextName) :
    Behind (f.freshName base) (f.register base).nextName := by
  show Behind _ (if f.mustRename base then f.nextName + 1 else f.nextName)
  rcases f.freshName_cases base with ⟨hrename, stem, hfresh⟩ | ⟨hrename, hfresh, _⟩
  · rw [if_pos hrename, hfresh]
    exact behind_generated stem _
  · rwa [hrename, hfresh]

end Function

/-! ## Namings -/

namespace Naming

variable {n : Naming} {v : ValueId} {f : FunctionId} {r : Registry}

/-- The names of values are registered with their functions, and are different; in every function
they are behind the number that comes next. -/
structure InStep (n : Naming) : Prop where
  registered : ∀ {v f name}, n.seat v = some (f, name) → name ∈ (n.registry f).names
  distinct : ∀ {v w f name}, n.seat v = some (f, name) → n.seat w = some (f, name) → v = w
  behind : ∀ f, ∀ name ∈ (n.registry f).names, Behind name (n.registry f).nextName

@[simp] theorem setSeat_setSeat (a b : Option (FunctionId × String)) :
    (n.setSeat v a).setSeat v b = n.setSeat v b := by
  refine Naming.ext (funext fun w => ?_) rfl
  show (if w = v then b else if w = v then a else n.seat w) = if w = v then b else n.seat w
  split
  · rfl
  · rfl

/-- Other names stay as they are. -/
theorem seat_of_setSeat {w : ValueId} {seat : Option (FunctionId × String)}
    (h : (n.setSeat v seat).seat w = some (f, name)) :
    (w = v ∧ seat = some (f, name)) ∨ w ≠ v ∧ n.seat w = some (f, name) := by
  change (if w = v then seat else n.seat w) = _ at h
  split at h
  · next hw => exact .inl ⟨hw, h⟩
  · next hw => exact .inr ⟨hw, h⟩

namespace InStep

/-- A value may forget its function. -/
theorem forget (h : n.InStep) (v : ValueId) : (n.setSeat v none).InStep where
  registered hw := by
    rcases seat_of_setSeat hw with ⟨_, hw⟩ | ⟨_, hw⟩
    · cases hw
    · exact h.registered hw
  distinct hw hw' := by
    rcases seat_of_setSeat hw with ⟨_, hw⟩ | ⟨_, hw⟩
    · cases hw
    · rcases seat_of_setSeat hw' with ⟨_, hw'⟩ | ⟨_, hw'⟩
      · cases hw'
      · exact h.distinct hw hw'
  behind := h.behind

/-- A value may leave its function, which releases the name. -/
theorem leave (h : n.InStep) (hv : n.seat v = some (f, name))
    (hnames : r.names = (n.registry f).names.erase name)
    (hnext : r.nextName = (n.registry f).nextName) :
    ((n.setRegistry f r).setSeat v none).InStep where
  registered {w g name'} hw := by
    rcases seat_of_setSeat hw with ⟨_, hw⟩ | ⟨hne, hw⟩
    · cases hw
    · show name' ∈ (if g = f then r else n.registry g).names
      split
      · next hg =>
        subst hg
        rw [hnames]
        have hother : name' ≠ name := by
          rintro rfl
          exact hne (h.distinct hw hv)
        exact (List.mem_erase_of_ne hother).mpr (h.registered hw)
      · exact h.registered hw
  distinct hw hw' := (h.forget v).distinct hw hw'
  behind g name' := by
    show name' ∈ (if g = f then r else n.registry g).names →
      Behind name' (if g = f then r else n.registry g).nextName
    split
    · rw [hnames, hnext]
      exact fun hmem => h.behind f name' (List.mem_of_mem_erase hmem)
    · exact h.behind g name'

/-- A value may enter a function under a name that is new there. -/
theorem enter (h : (n.setSeat v none).InStep) (hnew : name ∉ (n.registry f).names)
    (hnames : r.names = (n.registry f).names ++ [name])
    (hnext : (n.registry f).nextName ≤ r.nextName) (hbehind : Behind name r.nextName) :
    ((n.setRegistry f r).setSeat v (some (f, name))).InStep where
  registered {w g name'} hw := by
    show name' ∈ (if g = f then r else n.registry g).names
    rcases seat_of_setSeat hw with ⟨_, hw⟩ | ⟨hne, hw⟩
    · obtain ⟨rfl, rfl⟩ := Prod.mk.inj (Option.some_inj.mp hw)
      rw [if_pos rfl, hnames]
      exact List.mem_append_right _ (List.mem_singleton.mpr rfl)
    · have hmem := h.registered ((if_neg hne).trans hw)
      split
      · next hg =>
        rw [hnames]
        exact List.mem_append_left _ (hg ▸ hmem)
      · exact hmem
  distinct {w w' g name'} hw hw' := by
    -- the name of another value is registered, and that of the value that enters is not
    have hother : ∀ u, u ≠ v → n.seat u = some (g, name') → some (f, name) ≠ some (g, name') := by
      rintro u hu hseat ⟨⟩
      exact hnew (h.registered ((if_neg hu).trans hseat))
    rcases seat_of_setSeat hw with ⟨rfl, hseat⟩ | ⟨hne, hw⟩
    · rcases seat_of_setSeat hw' with ⟨rfl, _⟩ | ⟨hne', hw'⟩
      · rfl
      · exact absurd hseat (hother _ hne' hw')
    · rcases seat_of_setSeat hw' with ⟨_, hseat⟩ | ⟨hne', hw'⟩
      · exact absurd hseat (hother _ hne hw)
      · exact h.distinct ((if_neg hne).trans hw) ((if_neg hne').trans hw')
  behind g name' := by
    show name' ∈ (if g = f then r else n.registry g).names →
      Behind name' (if g = f then r else n.registry g).nextName
    split
    · rw [hnames]
      intro hmem
      rcases List.mem_append.mp hmem with hmem | hmem
      · exact (h.behind f name' hmem).mono hnext
      · rwa [List.mem_singleton.mp hmem]
    · exact h.behind g name'

end InStep

end Naming

end SsaDebugInfo
