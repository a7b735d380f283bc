import SsaDebugInfo.Proofs.Layout.Legible

/-!
# Remembered sizes are the sizes

A layout remembers sizes under the written forms of types. If the target measures legible types
only, a type that has a size is legible, so its written form is that of no other type; hence what is
remembered under a written form is the size of every type that has it. It does not matter what has
been measured before, nor what failed.

- `Ty.MeasuresLegible`: what is asked of the way in which a target counts bytes, and
  `Ty.measuresLegible_bytes?`: that the conventions of targets meet it.
- `Ty.legible_of_sizeInBits`: types that have a size are legible.
- `Layout.Faithful`: what is remembered under the written form of a type is its size.
- `Layout.faithful_query`: a query answers the size of the type, and what is remembered stays
  faithful.
- `FaithfulLayouts`: the layouts of a store, whatever it goes through.
-/

namespace SsaDebugInfo

/-! ## Types that have a size -/

namespace Ty

variable {target : Layout.Target} {t : Ty} {bits : Int}

/-- Whether the target accepts pointers to the type, as far as it is no pointer without a target. -/
def pointable (target : Layout.Target) : Ty → Bool
  | function result parameters _ =>
    (result.isVoid || (extent? target result).isSome) && takesAll target parameters
  | t => (extent? target t).isSome

/-- What has a size may be pointed to. -/
theorem pointable_of_extent? (h : (extent? target t).isSome = true) :
    t.pointable target = true := by
  cases t with
  | function => cases h
  | _ => exact h

/-- A typed pointer has a size only if it may point to its target. -/
theorem isSome_extent?_pointerTo {space : Int}
    (h : (extent? target (pointerTo t space)).isSome = true) :
    t.isOpaque = false ∧ t.pointable target = true := by
  cases t with
  | pointer => cases h
  | function result parameters variadic =>
    refine ⟨rfl, ?_⟩
    rw [extent?] at h
    split at h
    · next hparts => exact hparts
    · cases h
  | half | float | double => exact ⟨rfl, rfl⟩
  | void | metadata | label => cases h
  | _ => exact ⟨rfl, Option.isSome_of_isSome_bind h⟩

/-- Parameters that a function takes are metadata or have sizes, the first one and the others. -/
theorem takesAll_cons {rest : List Ty} (h : takesAll target (t :: rest) = true) :
    (t = metadata ∨ (extent? target t).isSome = true) ∧ takesAll target rest = true := by
  cases t with
  | metadata => exact ⟨.inl rfl, h⟩
  | _ => exact ⟨.inr (Bool.and_eq_true_iff.mp h).1, (Bool.and_eq_true_iff.mp h).2⟩

/-- Fields have sizes if the first one has and the others have. -/
theorem isSome_extents?_cons {rest : List Ty} (h : (extents? target (t :: rest)).isSome = true) :
    (extent? target t).isSome = true ∧ (extents? target rest).isSome = true := by
  rw [extents?] at h
  cases ht : extent? target t with
  | none =>
    rw [ht] at h
    cases h
  | some extent =>
    rw [ht] at h
    exact ⟨rfl, Option.isSome_of_isSome_bind h⟩

/-- A vector has a size only if its elements have. -/
theorem isSome_extent?_vector {n : Int} (h : (extent? target (vector n t)).isSome = true) :
    (extent? target t).isSome = true := by
  rw [extent?] at h
  split at h
  · exact Option.isSome_of_isSome_bind h
  · cases h

/-- An array has a size only if its elements have. -/
theorem isSome_extent?_array {n : Int} (h : (extent? target (array n t)).isSome = true) :
    (extent? target t).isSome = true := by
  rw [extent?] at h
  split at h
  · exact Option.isSome_of_isSome_bind h
  · cases h

mutual

/-- Types that the target accepts pointers to are legible. -/
theorem legible_of_pointable : (t : Ty) → t.pointable target = true → t.legible = true
  | int _, _ | half, _ | float, _ | double, _ | void, _ | metadata, _ | pointer _, _ => rfl
  | label _, h => nomatch h
  | pointerTo t space, h => by
    obtain ⟨htarget, ht⟩ := isSome_extent?_pointerTo h
    have hlegible := legible_of_pointable t ht
    cases t with
    | pointer => cases htarget
    | _ => exact hlegible
  | vector n t, h => legible_of_pointable t (pointable_of_extent? (isSome_extent?_vector h))
  | array n t, h => legible_of_pointable t (pointable_of_extent? (isSome_extent?_array h))
  | struct fields packed, h => legibleAll_of_extents? fields (Option.isSome_of_isSome_bind h)
  | function result parameters variadic, h => by
    obtain ⟨hresult, hparameters⟩ := Bool.and_eq_true_iff.mp h
    refine Bool.and_eq_true_iff.mpr ⟨?_, legibleAll_of_takesAll parameters hparameters⟩
    rcases Bool.or_eq_true_iff.mp hresult with hvoid | hresult
    · cases result with
      | void => rfl
      | _ => cases hvoid
    · exact legible_of_pointable result (pointable_of_extent? hresult)

/-- Fields that have sizes are legible, by recursion along the types. -/
theorem legibleAll_of_extents? : (ts : List Ty) → (extents? target ts).isSome = true →
    legibleAll ts = true
  | [], _ => rfl
  | t :: rest, h => by
    obtain ⟨ht, hrest⟩ := isSome_extents?_cons h
    exact Bool.and_eq_true_iff.mpr
      ⟨legible_of_pointable t (pointable_of_extent? ht), legibleAll_of_extents? rest hrest⟩

/-- Parameters that a function takes are legible, by recursion along the types. -/
theorem legibleAll_of_takesAll : (ts : List Ty) → takesAll target ts = true →
    legibleAll ts = true
  | [], _ => rfl
  | t :: rest, h => by
    obtain ⟨ht, hrest⟩ := takesAll_cons h
    refine Bool.and_eq_true_iff.mpr ⟨?_, legibleAll_of_takesAll rest hrest⟩
    rcases ht with heq | ht
    · rw [heq]
      rfl
    · exact legible_of_pointable t (pointable_of_extent? ht)

end

/-- The types that a target measures are legible. -/
def MeasuresLegible (bytes : Ty → Option Nat) : Prop :=
  ∀ t n, bytes t = some n → t.legible = true

/-- By their conventions targets accept legible types only. -/
theorem measuresLegible_bytes? (target : Layout.Target) : MeasuresLegible target.bytes? := by
  intro t n hmeasured
  obtain ⟨extent, hextent, _⟩ := Option.map_eq_some_iff.mp hmeasured
  exact legible_of_pointable t (pointable_of_extent? (by rw [hextent]; rfl))

variable {bytes : Ty → Option Nat} (hbytes : MeasuresLegible bytes)

include hbytes

/-- Types that have a size are legible. -/
theorem legible_of_sizeInBits (h : t.sizeInBits bytes = .ok bits) : t.legible = true := by
  fun_induction sizeInBits bytes t generalizing bits with
  | case1 n t ih =>
    cases hsize : t.sizeInBits bytes with
    | error f =>
      rw [hsize] at h
      cases h
    | ok width => exact ih hsize
  | case2 t hvector =>
    cases hmeasured : bytes t with
    | some n => exact hbytes t n hmeasured
    | none =>
      -- only integers do without the target
      cases t with
      | int => rfl
      | vector n t => exact (hvector n t rfl).elim
      | void | metadata | label | function => cases h
      | _ => simp [leafSizeInBits, hmeasured] at h

/-- The written form of a type that has a size tells the type. -/
theorem eq_of_sizeInBits {t' : Ty} (h : t.sizeInBits bytes = .ok bits)
    (hprint : t.print = t'.print) : t = t' :=
  eq_of_print_eq (legible_of_sizeInBits hbytes h) hprint

end Ty

/-! ## What is remembered -/

namespace Layout

variable {bytes : Ty → Option Nat} {cache : List (String × Int)} {bits : Int} {t : Ty}

/-- What is remembered under the written form of a type is the size of the type. -/
def Faithful (bytes : Ty → Option Nat) (cache : List (String × Int)) : Prop :=
  ∀ (t : Ty) (bits : Int), cache.lookup t.print = some bits → t.sizeInBits bytes = .ok bits

theorem faithful_nil (bytes : Ty → Option Nat) : Faithful bytes [] := fun _ _ h => nomatch h

section

variable (hbytes : Ty.MeasuresLegible bytes)

include hbytes

/-- The size of a type may be remembered. -/
theorem Faithful.concat (h : Faithful bytes cache) (hsize : t.sizeInBits bytes = .ok bits) :
    Faithful bytes (cache ++ [(t.print, bits)]) := by
  intro t' bits' hbits
  cases hlookup : cache.lookup t'.print with
  | some old =>
    obtain rfl : old = bits' := Option.some_inj.mp ((lookup_concat hlookup _).symm.trans hbits)
    exact h t' old hlookup
  | none =>
    rw [List.lookup_append, hlookup, Option.none_or, List.lookup_cons] at hbits
    split at hbits
    · next heq =>
      obtain rfl := Option.some_inj.mp hbits
      obtain rfl := Ty.eq_of_sizeInBits hbytes hsize (beq_iff_eq.mp heq).symm
      exact hsize
    · cases hbits

/-- So may an answer, if it is the size of the type or the fault of having none. -/
theorem Faithful.remember (h : Faithful bytes cache) {result : Except Fault Int}
    (hresult : result = t.sizeInBits bytes) :
    (remember t.print (result, cache)).1 = t.sizeInBits bytes ∧
      Faithful bytes (remember t.print (result, cache)).2 := by
  cases result with
  | error f => exact ⟨hresult, h⟩
  | ok bits => exact ⟨hresult, h.concat hbytes hresult.symm⟩

/-- A query answers the size of the type, whatever is remembered, and remembers nothing else. -/
theorem faithful_query (h : Faithful bytes cache) :
    (query bytes t cache).1 = t.sizeInBits bytes ∧ Faithful bytes (query bytes t cache).2 := by
  fun_induction query bytes t cache with
  | case1 n t cache bits hbits => exact ⟨(h _ bits hbits).symm, h⟩
  | case2 n t cache hnone result cache' hquery ih =>
    obtain ⟨hresult, hcache⟩ := ih h
    rw [hquery] at hresult hcache
    refine hcache.remember hbytes ?_
    rw [show result = t.sizeInBits bytes from hresult, Ty.sizeInBits]
    cases t.sizeInBits bytes <;> rfl
  | case3 t cache hvector bits hbits => exact ⟨(h _ bits hbits).symm, h⟩
  | case4 t cache hvector hnone =>
    refine h.remember hbytes ?_
    rw [Ty.sizeInBits]
    exact hvector

end

/-- What a layout remembers is faithful to the conventions of its target. -/
theorem faithful_query_target (layout : Layout)
    (h : Faithful layout.target.bytes? layout.cache) (t : Ty) :
    (layout.sizeInBits t).1 = t.sizeInBits layout.target.bytes? ∧
      Faithful layout.target.bytes? (layout.sizeInBits t).2.cache :=
  faithful_query (Ty.measuresLegible_bytes? layout.target) h

/-- The sizes of types that are asked for one after another, whether or not each has one. -/
def sizesInTurn (layout : Layout) : List Ty → List (Except Fault Int)
  | [] => []
  | t :: rest => (layout.sizeInBits t).1 :: (layout.sizeInBits t).2.sizesInTurn rest

/-- A layout that remembers nothing answers the size of a type by the conventions of the target. -/
theorem sizeInBits_unremembered (text : String) (t : Ty) :
    (sizeInBits { text } t).1 = t.sizeInBits (Target.ofString text).bytes? :=
  (faithful_query_target { text } (faithful_nil _) t).1

/-- Whatever has been asked for before, each size is that of a layout that remembers nothing. -/
theorem sizesInTurn_eq {layout : Layout} (h : Faithful layout.target.bytes? layout.cache)
    (types : List Ty) :
    layout.sizesInTurn types = types.map fun t => (sizeInBits { text := layout.text } t).1 := by
  induction types generalizing layout with
  | nil => rfl
  | cons t rest ih =>
    obtain ⟨hfirst, hcache⟩ := faithful_query_target layout h t
    rw [sizesInTurn, List.map_cons, sizeInBits_unremembered]
    exact congrArg₂ List.cons hfirst (ih hcache)

end Layout

/-! ## The layouts of a store -/

open Store

variable {c : Scope} {s t : Store}

/-- What every layout remembers is faithful. -/
def Store.FaithfulLayouts (s : Store) : Prop :=
  ∀ (id : LayoutId) (layout : Layout), s.get? id = some layout →
    Layout.Faithful layout.target.bytes? layout.cache

/-- A single change leaves layouts faithful: a layout changes by queries only. -/
theorem Touch.faithfulLayouts (h : Touch c s t) (hs : s.FaithfulLayouts) : t.FaithfulLayouts := by
  intro id layout hlayout
  rcases h.layout hlayout with hnew | ⟨old, hold, rfl | ⟨type, rfl⟩⟩
  · exact hnew ▸ Layout.faithful_nil _
  · exact hs id layout hold
  · exact (Layout.faithful_query_target old (hs id old hold) type).2

/-- Collection leaves layouts faithful. -/
theorem Store.FaithfulLayouts.collect (hs : s.FaithfulLayouts) (roots : List Slot) :
    (s.collect roots).FaithfulLayouts :=
  fun id layout hlayout => hs id layout (get?_of_get?_collect (by decide) hlayout).1

theorem Store.faithfulLayouts_initial : Store.initial.FaithfulLayouts := by
  intro id layout hlayout
  cases (show (none : Option Layout) = some layout from hlayout)

end SsaDebugInfo
