/-!
# How numbers are written

A number is written in decimal digits, with a sign in front if it is negative. So it is never
written as nothing, its characters are none of those that set texts apart, and it is the only number
with its written form.

- `not_mem_toString`: which characters are in no written number.
- `readNumber_toString`, `toString_inj`: a written number is read back, and different numbers are
  written differently.
-/

namespace SsaDebugInfo

theorem isDigit_of_mem_repr {n : Nat} {c : Char} (h : c ∈ n.repr.toList) : c.isDigit = true := by
  rw [Nat.toList_repr] at h
  exact Nat.isDigit_of_mem_toDigits (b := 10) (by omega) (by omega) h

/-- A number is written in digits, perhaps with a sign in front. -/
theorem toList_toString_int (n : Int) :
    0 ≤ n ∧ (toString n).toList = n.toNat.repr.toList ∨
      n < 0 ∧ (toString n).toList = '-' :: (-n).toNat.repr.toList := by
  rw [Int.toString_eq_repr, Int.repr_eq_if]
  split
  · next hn => exact .inl ⟨hn, rfl⟩
  · next hn =>
    refine .inr ⟨Int.not_le.mp hn, ?_⟩
    rw [String.toList_append]
    rfl

theorem mem_toString {n : Int} {c : Char} (h : c ∈ (toString n).toList) :
    c.isDigit = true ∨ c = '-' := by
  rcases toList_toString_int n with ⟨_, hn⟩ | ⟨_, hn⟩
  · exact .inl (isDigit_of_mem_repr (hn ▸ h))
  · rw [hn] at h
    rcases List.mem_cons.mp h with hsign | hdigit
    · exact .inr hsign
    · exact .inl (isDigit_of_mem_repr hdigit)

/-- A character that is neither a digit nor a sign is in no written number. -/
theorem not_mem_toString {c : Char} (h : (!c.isDigit && c != '-') = true) (n : Int) :
    c ∉ (toString n).toList := by
  intro hc
  rcases mem_toString hc with hdigit | rfl
  · rw [hdigit] at h
    cases h
  · cases h

/-- The number that is written in the given digits, perhaps with a sign in front. -/
def readNumber : List Char → Int
  | '-' :: digits => -(Nat.ofDigitChars 10 digits 0 : Int)
  | digits => (Nat.ofDigitChars 10 digits 0 : Int)

/-- A written number is read back. -/
theorem readNumber_toString (n : Int) : readNumber (toString n).toList = n := by
  have hdigits : ∀ n : Nat, Nat.ofDigitChars 10 n.repr.toList 0 = n := by
    intro n
    rw [Nat.toList_repr, Nat.ofDigitChars_toDigits (by decide) (by decide)]
  rcases toList_toString_int n with ⟨hn, htext⟩ | ⟨hn, htext⟩
  · have hsign : ∀ rest, n.toNat.repr.toList ≠ '-' :: rest := by
      intro rest hrest
      -- a sign is no digit
      have hdigit : ('-' : Char).isDigit = true :=
        isDigit_of_mem_repr (hrest.symm ▸ List.mem_cons_self)
      cases hdigit
    rw [htext, readNumber, hdigits]
    · omega
    · exact hsign
  · rw [htext, readNumber, hdigits]
    omega

/-- Different numbers are written differently. -/
theorem toString_inj {n m : Int} (h : (toString n).toList = (toString m).toList) : n = m := by
  rw [← readNumber_toString n, h, readNumber_toString]

/-- A number is written as something. -/
theorem exists_toString (n : Int) : ∃ c rest, (toString n).toList = c :: rest := by
  rcases toList_toString_int n with ⟨_, hn⟩ | ⟨_, hn⟩
  · cases hrepr : n.toNat.repr.toList with
    | nil => exact absurd (String.toList_eq_nil_iff.mp hrepr) Nat.repr_ne_empty
    | cons c rest => exact ⟨c, rest, hn.trans hrepr⟩
  · exact ⟨_, _, hn⟩

end SsaDebugInfo
