import SsaDebugInfo.Proofs.Act.PlainFaults
import SsaDebugInfo.Proofs.Store.Touch
import SsaDebugInfo.Proofs.Text.Number

/-!
# Remembered sizes of vectors

A layout remembers sizes under the written forms of types. The written form of a vector tells how
many elements it has and what they are, and that of nothing else with a size looks like it. So what
is remembered of a vector is always so many times what is remembered of its elements, and the size
of a vector is the same whether it is found now or was found before.

- `print_vector_inj`, `print_ne_vector`: what the written form of a vector tells.
- `Layout.Coherent`, `Layout.coherent_query`: what is remembered, and that it stays so.
- `Layout.sizeInBits_vector`: the size of a vector by the size of its elements.
- `CoherentLayouts`: the layouts of a store, whatever it goes through.
-/

namespace SsaDebugInfo

/-! ## Written forms -/

namespace Ty

/-- The written form of a vector tells how many elements it has, and the written form of these. -/
theorem print_vector_inj {n n' : Int} {t t' : Ty}
    (h : (vector n t).print = (vector n' t').print) : n = n' ∧ t.print = t'.print := by
  have hspace : ∀ n : Int, ∀ c ∈ (toString n).toList, (c != ' ') = true := by
    intro n c hc
    rcases mem_toString hc with hc | rfl
    · rw [bne_iff_ne]
      rintro rfl
      cases hc
    · rfl
  have h := congrArg String.toList h
  rw [toList_print_vector, toList_print_vector] at h
  have h := (List.cons.inj (List.append_cancel_right h)).2
  -- the number ends in front of the first space
  have hnumber := congrArg (List.takeWhile (· != ' ')) h
  rw [List.takeWhile_append_of_pos (hspace n), List.takeWhile_append_of_pos (hspace n')] at hnumber
  have hn : (toString n).toList = (toString n').toList := by simpa using hnumber
  rw [hn] at h
  have htext := List.append_cancel_left h
  exact ⟨toString_inj hn, String.toList_inj.mp (by simpa using htext)⟩

/-- Nothing else that has a size is written like a vector. -/
theorem print_ne_vector {bytes : Ty → Option Nat} {t : Ty} {bits n : Int} {element : Ty}
    (hleaf : ∀ n element, t ≠ vector n element) (h : t.leafSizeInBits bytes = .ok bits) :
    t.print ≠ (vector n element).print := by
  intro hprint
  have hlist := congrArg String.toList hprint
  rw [toList_print_vector] at hlist
  cases t with
  | vector n element => exact hleaf n element rfl
  | struct fields packed =>
    cases packed with
    | false => simp [print] at hlist
    | true =>
      -- a brace follows, which is no part of a number
      obtain ⟨c, rest, hc⟩ := exists_toString n
      have hbrace : c = '\x7b' := by
        rw [hc] at hlist
        simp only [print, if_true, String.toList_append] at hlist
        exact (List.cons.inj (List.cons.inj hlist).2).1.symm
      rcases mem_toString (hc ▸ List.mem_cons_self) with hdigit | hsign
      · rw [hbrace] at hdigit
        cases hdigit
      · cases hbrace.symm.trans hsign
  | pointerTo target space =>
    -- the one ends in a star, the other does not
    have hlast := congrArg List.getLast? hlist
    rw [List.getLast?_concat] at hlast
    simp [print] at hlast
  | int width => simp [print] at hlist
  | half => simp [print] at hlist
  | float => simp [print] at hlist
  | double => simp [print] at hlist
  | pointer space => simp [print] at hlist
  | array n element => simp [print] at hlist
  | _ => cases h

end Ty

/-! ## What is remembered -/

namespace Layout

variable {bytes : Ty → Option Nat} {cache : List (String × Int)} {key : String} {bits n : Int}
  {t : Ty}

/-- What is remembered of a vector is so many times what is remembered of its elements. -/
def Coherent (cache : List (String × Int)) : Prop :=
  ∀ n t bits, cache.lookup (Ty.vector n t).print = some bits →
    ∃ width, cache.lookup t.print = some width ∧ bits = n * width

theorem coherent_nil : Coherent [] := fun _ _ _ h => nomatch h

/-- What is remembered already stays. -/
theorem lookup_concat (h : cache.lookup key = some bits) (entry : String × Int) :
    (cache ++ [entry]).lookup key = some bits := by
  rw [List.lookup_append, h]
  rfl

theorem lookup_concat_self (h : cache.lookup key = none) (bits : Int) :
    (cache ++ [(key, bits)]).lookup key = some bits := by
  rw [List.lookup_append, h]
  simp

/-- One more size may be remembered if it is no vector's, or goes by the size of the elements. -/
theorem Coherent.concat (h : Coherent cache)
    (hkey : ∀ n t, key = (Ty.vector n t).print →
      ∃ width, cache.lookup t.print = some width ∧ bits = n * width) :
    Coherent (cache ++ [(key, bits)]) := by
  intro n t bits' hbits
  have hold : ∃ width, cache.lookup t.print = some width ∧ bits' = n * width := by
    cases hlookup : cache.lookup (Ty.vector n t).print with
    | some old =>
      obtain rfl : old = bits' := Option.some_inj.mp ((lookup_concat hlookup _).symm.trans hbits)
      exact h n t old hlookup
    | none =>
      rw [List.lookup_append, hlookup, Option.none_or, List.lookup_cons] at hbits
      split at hbits
      · next heq =>
        obtain rfl := Option.some_inj.mp hbits
        exact hkey n t (beq_iff_eq.mp heq).symm
      · cases hbits
  obtain ⟨width, hwidth, hproduct⟩ := hold
  exact ⟨width, lookup_concat hwidth _, hproduct⟩

/-- However the target counts bytes, a size that has been found is remembered, and what is
remembered stays coherent. -/
theorem coherent_query (h : Coherent cache) : Coherent (query bytes t cache).2 ∧
    ∀ bits, (query bytes t cache).1 = .ok bits →
      (query bytes t cache).2.lookup t.print = some bits := by
  fun_induction query bytes t cache with
  | case1 n t cache old hold =>
    refine ⟨h, fun bits hbits => ?_⟩
    rw [hold, Except.ok.inj hbits]
  | case2 n t cache hnone result cache' hquery ih =>
    obtain ⟨hcoherent, hremembers⟩ := ih h
    rw [hquery] at hcoherent hremembers
    cases result with
    | error f =>
      refine ⟨hcoherent, fun _ hbits => ?_⟩
      cases hbits
    | ok width =>
      have hwidth := hremembers width rfl
      refine ⟨hcoherent.concat fun n' t' hprint => ?_, fun bits hbits => ?_⟩
      · obtain ⟨rfl, htext⟩ := Ty.print_vector_inj hprint
        exact ⟨width, htext ▸ hwidth, rfl⟩
      · obtain rfl : n * width = bits := Except.ok.inj hbits
        -- the vector may have come with its elements, but not with another size
        cases hlookup : cache'.lookup (Ty.vector n t).print with
        | some old =>
          obtain ⟨width', hwidth', rfl⟩ := hcoherent n t old hlookup
          obtain rfl := Option.some_inj.mp (hwidth.symm.trans hwidth')
          exact lookup_concat hlookup _
        | none => exact lookup_concat_self hlookup _
  | case3 t cache hvector old hold =>
    refine ⟨h, fun bits hbits => ?_⟩
    rw [hold, Except.ok.inj hbits]
  | case4 t cache hvector hnone =>
    cases hsize : t.leafSizeInBits bytes with
    | error f =>
      refine ⟨h, fun _ hbits => ?_⟩
      cases hbits
    | ok width =>
      refine ⟨h.concat fun n t' hprint => ?_, fun bits hbits => ?_⟩
      · exact absurd hprint (Ty.print_ne_vector (fun n t' ht => hvector n t' ht) hsize)
      · obtain rfl : width = bits := Except.ok.inj hbits
        exact lookup_concat_self hnone _

/-- The size of a vector is so many times the size of its elements. -/
theorem query_vector (h : Coherent cache) {width : Int}
    (hwidth : (query bytes t cache).1 = .ok width) :
    (query bytes (.vector n t) cache).1 = .ok (n * width) := by
  rw [query]
  split
  · next bits hbits =>
    -- it has been found before, and so has that of the elements
    obtain ⟨width', hwidth', rfl⟩ := h n t bits hbits
    have hfound : query bytes t cache = (.ok width', cache) := by
      cases t <;> · unfold query; rw [hwidth']
    rw [hfound] at hwidth
    rw [Except.ok.inj hwidth]
  · rcases hquery : query bytes t cache with ⟨result, cache'⟩
    rw [hquery] at hwidth
    obtain rfl : result = .ok width := hwidth
    rfl

/-- Under a coherent layout a vector has the size of its elements, as often as it has them. -/
theorem sizeInBits_vector {layout : Layout} (h : Coherent layout.cache) {width : Int}
    (hwidth : (layout.sizeInBits t).1 = .ok width) :
    (layout.sizeInBits (.vector n t)).1 = .ok (n * width) :=
  query_vector h hwidth

end Layout

/-! ## The layouts of a store -/

open Store

variable {c : Scope} {s t : Store}

/-- What every layout remembers is coherent. -/
def Store.CoherentLayouts (s : Store) : Prop :=
  ∀ (id : LayoutId) (layout : Layout), s.get? id = some layout → Layout.Coherent layout.cache

/-- A single change leaves layouts coherent: a layout changes by queries only. -/
theorem Touch.coherentLayouts (h : Touch c s t) (hs : s.CoherentLayouts) : t.CoherentLayouts := by
  intro id layout hlayout
  rcases h.layout hlayout with hnew | ⟨old, hold, rfl | ⟨type, rfl⟩⟩
  · exact hnew ▸ Layout.coherent_nil
  · exact hs id layout hold
  · exact (Layout.coherent_query (hs id old hold)).1

/-- Collection leaves layouts coherent. -/
theorem Store.CoherentLayouts.collect (hs : s.CoherentLayouts) (roots : List Slot) :
    (s.collect roots).CoherentLayouts :=
  fun id layout hlayout => hs id layout (get?_of_get?_collect (by decide) hlayout).1

theorem Store.coherentLayouts_initial : Store.initial.CoherentLayouts := by
  intro id layout hlayout
  cases (show (none : Option Layout) = some layout from hlayout)

end SsaDebugInfo
