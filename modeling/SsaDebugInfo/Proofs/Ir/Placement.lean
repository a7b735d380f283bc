import SsaDebugInfo.Proofs.Act.Conduct
import SsaDebugInfo.Proofs.Store.Users
import SsaDebugInfo.Ir.Placement

/-!
# Placing moves what is placed

Placing instructions, blocks and arguments changes links, lists and names: those of what is placed
(`Store.Moves`). Uses, operands, handles and wrappers are none of its business, and other things
stay where they are, in their order. Placing may fault, and what it did before the fault stays, but
it never faults for a use that is missing.

- `keeps_setFunction`, `keeps_setBlock`, `keeps_detach`: the links and the names that go with them.
- `keeps_appendTo` and the like: links and lists together, one statement for each way to place.
-/

namespace SsaDebugInfo

namespace Store

variable {s t r : Store} {moved : Slot → Bool}

/-- A change of where some things stand and of what they are called. All else stays, in its order,
and so does what the things that are moved are and do. -/
structure Moves (moved : Slot → Bool) (s t : Store) : Prop extends s.Aside t where
  carries : ∀ {v : ValueId} {a : Value}, s.get? v = some a →
    ∃ b : Value, t.get? v = some b ∧ a.Carries b
  stays : ∀ {v : ValueId} {a : Value}, s.get? v = some a → moved (.ofValue v) = false →
    ∃ b : Value, t.get? v = some b ∧ a.Stays b
  lists : ∀ b, (t.instructionsOf b).filter (!moved ·) = (s.instructionsOf b).filter (!moved ·)

theorem Moves.refl (moved : Slot → Bool) (s : Store) : s.Moves moved s where
  toAside := .refl s
  carries h := ⟨_, h, .refl _⟩
  stays h _ := ⟨_, h, .refl _⟩
  lists _ := rfl

theorem Moves.trans (hst : Moves moved s t) (htr : Moves moved t r) : Moves moved s r where
  toAside := hst.toAside.trans htr.toAside
  carries h := by
    obtain ⟨b, hb, hab⟩ := hst.carries h
    obtain ⟨c, hc, hbc⟩ := htr.carries hb
    exact ⟨c, hc, hab.trans hbc⟩
  stays h hmoved := by
    obtain ⟨b, hb, hab⟩ := hst.stays h hmoved
    obtain ⟨c, hc, hbc⟩ := htr.stays hb hmoved
    exact ⟨c, hc, hab.trans hbc⟩
  lists b := (htr.lists b).trans (hst.lists b)

/-- Objects other than values are nowhere. -/
theorem Moves.modify_other {kind : Kind} {id : Id kind} {f : Object kind → Object kind}
    (hkind : kind ≠ .value) (h : s.Aside (s.modify id f)) : s.Moves moved (s.modify id f) where
  toAside := h
  carries {v a} ha := ⟨a, by rwa [get?_modify_kind _ _ _ _ hkind.symm], .refl a⟩
  stays {v a} ha _ := ⟨a, by rwa [get?_modify_kind _ _ _ _ hkind.symm], .refl a⟩
  lists b := by rw [instructionsOf, get?_modify_kind _ _ _ _ hkind.symm, instructionsOf]

/-- For a change of one value only that value is to be looked at. -/
theorem Moves.modify_value {id : ValueId} {f : Value → Value} (h : s.Aside (s.modify id f))
    (hcarries : ∀ a, Value.Carries a (f a))
    (hstays : moved (.ofValue id) = false → ∀ a, Value.Stays a (f a))
    (hlists : ∀ a : Value, (f a).instructions.filter (!moved ·) =
      a.instructions.filter (!moved ·)) : s.Moves moved (s.modify id f) where
  toAside := h
  carries {v a} ha := by
    rw [get?_modify]
    split
    · rw [ha]
      exact ⟨f a, rfl, hcarries a⟩
    · exact ⟨a, ha, .refl a⟩
  stays {v a} ha hmoved := by
    rw [get?_modify]
    split
    · next hv =>
      rw [ha]
      exact ⟨f a, rfl, hstays (hv ▸ hmoved) a⟩
    · exact ⟨a, ha, .refl a⟩
  lists b :=
    asked_modify (fun o : Option (Object .value) =>
      ((o.map Value.instructions).getD []).filter (!moved ·)) (fun a _ => hlists a) b

end Store

/-- What may happen when some things are placed. -/
def Conduct.moves (moved : Slot → Bool) : Conduct where
  change := Store.Moves moved
  fault _ f := f ≠ .notAmongUses
  refl := .refl moved
  trans := .trans
  fault_of_change _ h := h
  plain h := by
    rintro rfl
    cases h

open Act Store

variable {s : Store} {moved : Slot → Bool}

/-! ## Names and links -/

/-- A change of a function moves things, if the function then holds only what is there. -/
theorem moves_function {function : FunctionId} {f : Function → Function}
    (hf : s.Closed → ∀ o, s.get? function = some o → (f o).HoldsOnly s.HasIn) :
    s.Moves moved (s.modify function f) := by
  refine Moves.modify_other (by decide) ?_
  refine Aside.modify (fun _ _ => trivial) (fun _ _ => trivial) fun hs o ho => ?_
  exact Function.holdsOnly_iff.mp (hf hs o ho)

theorem keeps_registerName (function : FunctionId) (base : String) :
    (registerName function base).Keeps (.moves moved) s fun _ _ => True := by
  refine reads_fetch.bind fun f hf => ?_
  have hregister : s.Moves moved (s.modify function (·.register base)) :=
    moves_function fun hs o ho => { hs.function ho with }
  exact Keeps.bind (keeps_update hregister) fun _ _ _ _ => keeps_pure trivial

theorem keeps_releaseName (function : FunctionId) (name : String) :
    (releaseName function name).Keeps (.moves moved) s fun _ _ => True := by
  refine reads_fetch.bind fun f hf => ?_
  split
  · have hrelease : s.Moves moved (s.modify function (·.unregister name)) :=
      moves_function fun hs o ho => { hs.function ho with }
    exact (keeps_update hrelease).any
  · exact ⟨.refl moved s, by simp [Conduct.moves]⟩

/-- A value with a new name, or with a new function, which must be there. -/
theorem moves_mapSite {id : ValueId} {f : Site → Site} (hmoved : moved (.ofValue id) = true)
    (hf : ∀ site function, (f site).function = some function → site.function ≠ some function →
      s.Has (.function function)) :
    s.Moves moved (s.modify id (·.mapSite f)) := by
  refine Moves.modify_value ?_ (fun o => o.carries_mapSite f) (fun h => ?_) fun o => ?_
  · refine Aside.modify_value (fun o => o.like_mapSite f) fun hs o ho => ?_
    have hholds := hs.holdsOnly ho
    refine hholds.mapSite fun site hsite function hfunction => ?_
    by_cases hold : site.function = some function
    · exact hholds.function function (by rw [Value.function?, hsite]; exact hold)
    · exact hasIn_some.mpr (hf site function hfunction hold)
  · rw [hmoved] at h
    cases h
  · rw [Value.instructions_mapSite]

/-- The second half of `setFunction`: the value gets to know its function, which gives it a name. -/
theorem keeps_enterFunction {value : ValueId} (hmoved : moved (.ofValue value) = true)
    {function : Option FunctionId} (hfunction : ∀ f, function = some f → s.Has (.function f))
    (name : String) :
    (do
      update value (·.mapSite fun site => { site with function })
      if let some new := function then
        let name ← registerName new name
        update value (·.mapSite fun site => { site with name }) : Act Unit).Keeps (.moves moved) s
          fun _ _ => True := by
  have hlink : s.Moves moved (s.modify value (·.mapSite fun site => { site with function })) :=
    moves_mapSite hmoved fun _ f hf _ => hfunction f hf
  refine Keeps.bind (keeps_update hlink) fun _ t _ _ => ?_
  split
  · refine (keeps_registerName _ _).bind fun name u _ _ => ?_
    refine (keeps_update ?_).any
    exact moves_mapSite hmoved fun _ _ hf hne => absurd hf hne
  · exact keeps_pure trivial

/-- A value that moves gets another function, or none. -/
theorem keeps_setFunction {value : ValueId} (hmoved : moved (.ofValue value) = true)
    {function : Option FunctionId} (hfunction : ∀ f, function = some f → s.Has (.function f)) :
    (setFunction value function).Keeps (.moves moved) s fun _ _ => True := by
  refine reads_fetch.bind fun v hv => ?_
  split
  · exact keeps_throw rfl
  · next site _ =>
    split
    · dsimp only
      split
      · refine Keeps.bind (keeps_releaseName _ _) fun _ t (ht : s.Moves moved t) _ => ?_
        exact keeps_enterFunction hmoved (fun f hf => ht.has (hfunction f hf)) site.name
      · exact keeps_enterFunction hmoved hfunction site.name
    · exact keeps_pure trivial

/-- An instruction in another block, which must be there. -/
theorem keeps_setBlock (hs : s.Closed) {insn : ValueId} (hmoved : moved (.ofValue insn) = true)
    {block : Option ValueId} (hblock : ∀ b, block = some b → s.Has (.value b)) :
    (setBlock insn block).Keeps (.moves moved) s fun _ _ => True := by
  have hlink : s.Moves moved (s.modify insn (·.mapInstruction fun i => { i with block })) := by
    refine Moves.modify_value ?_ (fun o => o.carries_mapBlock block) (fun h => ?_) fun o => ?_
    · refine Aside.modify_value (fun o => o.like_mapInstruction fun _ => rfl) fun hs o ho => ?_
      have hholds := hs.holdsOnly ho
      refine hholds.mapInstruction (fun _ _ b hb => ?_) (fun i hi => hholds.loc i hi)
        fun i hi b hb => ?_
      · exact hasIn_some.mpr (hblock b hb)
      · have hbinding : o.binding? = some b := by
          rw [Value.binding?, Value.opcode?, hi]
          exact hb
        exact ⟨hholds.var b hbinding, hholds.expression b hbinding⟩
    · rw [hmoved] at h
      cases h
    · rw [Value.instructions_mapInstruction]
  refine Keeps.bind (keeps_update hlink) fun _ t (ht : s.Moves moved t) _ => ?_
  split
  · exact keeps_setFunction hmoved (by simp)
  · refine reads_fetch.bind fun b hb => keeps_setFunction hmoved fun f hf => ?_
    exact ((ht.closed hs).holdsOnly hb).function f hf _ rfl

/-- An instruction that moves is detached from its block. -/
theorem keeps_detach (hs : s.Closed) {slot : Slot} (hmoved : moved slot = true) :
    (detach slot).Keeps (.moves moved) s fun _ _ => True := by
  refine reads_valueIn.bind fun id hid => reads_fetch.bind fun v hv => ?_
  obtain ⟨rfl, _⟩ := hid
  split
  · exact keeps_setBlock hs hmoved fun b hb => nomatch hb
  · split
    · refine (keeps_update ?_).any
      exact moves_mapSite hmoved fun _ _ hf => nomatch hf
    · exact keeps_throw rfl

/-! ## Lists -/

/-- A block with another list, of what is there, in which only what is moved has come or gone. -/
theorem moves_mapInstructions {block : ValueId} {f : List Slot → List Slot}
    (hf : ∀ l slot, slot ∈ f l → slot ∈ l ∨ s.HasIn slot)
    (hlist : ∀ l, (f l).filter (!moved ·) = l.filter (!moved ·)) :
    s.Moves moved (s.modify block (·.mapInstructions f)) := by
  refine Moves.modify_value ?_ (fun o => (o.stays_mapInstructions f).toCarries)
    (fun _ o => o.stays_mapInstructions f) fun o => ?_
  · refine Aside.modify_value (fun o => o.like_mapInstructions f) fun hs o ho => ?_
    have hholds := hs.holdsOnly ho
    refine hholds.mapInstructions fun slot hslot => ?_
    rcases hf _ slot hslot with hslot | hslot
    · exact hholds.instructions slot hslot
    · exact hslot
  · obtain ⟨_, shape, _, _⟩ := o
    cases shape with
    | block site instructions => exact hlist instructions
    | _ => rfl

/-- What a predicate rules out is not seen where it is put in. -/
theorem filter_insertIdx {α : Type} {p : α → Bool} {a : α} (ha : p a = false) (l : List α)
    (place : Nat) : (l.insertIdx place a).filter p = l.filter p := by
  induction l generalizing place with
  | nil =>
    cases place with
    | zero => simp [ha]
    | succ place => rfl
  | cons b rest ih =>
    cases place with
    | zero => simp [ha]
    | succ place => rw [List.insertIdx_succ_cons, List.filter_cons, List.filter_cons, ih]

/-- What a predicate rules out is not seen when it goes. -/
theorem filter_erase {α : Type} [BEq α] [LawfulBEq α] {p : α → Bool} {a : α} (ha : p a = false)
    (l : List α) : (l.erase a).filter p = l.filter p := by
  induction l with
  | nil => rfl
  | cons b rest ih =>
    by_cases hb : b = a
    · subst hb
      simp [ha]
    · rw [List.erase_cons_tail (by simpa using hb), List.filter_cons, List.filter_cons, ih]

theorem reads_indexIn {block : ValueId} {slot : Slot} :
    (indexIn block slot).Reads s fun _ => True := by
  refine reads_fetch.bind_reads fun v hv => ?_
  split
  · exact reads_pure trivial
  · exact reads_throw rfl

section Blocks

variable {block insn : ValueId}

/-- An instruction that moves is linked to a block that is there. -/
theorem keeps_linkTo (hs : s.Closed) (hblock : s.Has (.value block))
    (hmoved : moved (.ofValue insn) = true) :
    (setBlock insn (some block)).Keeps (.moves moved) s fun _ _ => True := by
  refine keeps_setBlock hs hmoved fun b hb => ?_
  cases hb
  exact hblock

/-- An instruction moves to the end of a block. -/
theorem keeps_appendTo (hs : s.Closed) (hblock : s.Has (.value block))
    (hinsn : s.Has (.value insn)) (hmoved : moved (.ofValue insn) = true) :
    (appendTo block insn).Keeps (.moves moved) s fun _ _ => True := by
  refine Keeps.bind (keeps_linkTo hs hblock hmoved) fun _ t ht _ => (keeps_update ?_).any
  refine moves_mapInstructions (fun l slot hslot => ?_) fun l => ?_
  · rcases List.mem_append.mp hslot with hslot | hslot
    · exact .inl hslot
    · rw [List.mem_singleton.mp hslot]
      exact .inr (hasIn_some.mpr (ht.has hinsn))
  · simp [hmoved]

/-- Putting an instruction at a place in a block. -/
theorem moves_insertIdx (hinsn : s.Has (.value insn)) (hmoved : moved (.ofValue insn) = true)
    (place : Nat) :
    s.Moves moved (s.modify block (·.mapInstructions (·.insertIdx place (.ofValue insn)))) := by
  refine moves_mapInstructions (fun l slot hslot => ?_) fun l => ?_
  · by_cases hlt : place ≤ l.length
    · rcases (List.mem_insertIdx hlt).mp hslot with rfl | hslot
      · exact .inr (hasIn_some.mpr hinsn)
      · exact .inl hslot
    · rw [List.insertIdx_of_length_lt (by omega)] at hslot
      exact .inl hslot
  · exact filter_insertIdx (by rw [hmoved]; rfl) l place

/-- An instruction moves in front of another one. -/
theorem keeps_insertBefore (hs : s.Closed) (hblock : s.Has (.value block))
    (hinsn : s.Has (.value insn)) (hmoved : moved (.ofValue insn) = true) (before : Slot) :
    (insertBefore block insn before).Keeps (.moves moved) s fun _ _ => True := by
  refine Keeps.bind (keeps_linkTo hs hblock hmoved) fun _ t ht _ => ?_
  refine reads_indexIn.bind fun place _ => ?_
  exact (keeps_update (moves_insertIdx (ht.has hinsn) hmoved place)).any

/-- An instruction moves behind another one. -/
theorem keeps_insertAfter (hs : s.Closed) (hblock : s.Has (.value block))
    (hinsn : s.Has (.value insn)) (hmoved : moved (.ofValue insn) = true) (after : Slot) :
    (insertAfter block insn after).Keeps (.moves moved) s fun _ _ => True := by
  refine Keeps.bind (keeps_linkTo hs hblock hmoved) fun _ t ht _ => ?_
  refine reads_indexIn.bind fun place _ => ?_
  exact (keeps_update (moves_insertIdx (ht.has hinsn) hmoved (place + 1))).any

/-- An instruction moves out of its block. -/
theorem keeps_removeFrom (hs : s.Closed) (block : ValueId) {slot : Slot}
    (hmoved : moved slot = true) :
    (removeFrom block slot).Keeps (.moves moved) s fun _ _ => True := by
  refine reads_fetch.bind fun v _ => reads_require.bind fun _ _ => ?_
  refine Keeps.bind (keeps_detach hs hmoved) fun _ t _ _ => (keeps_update ?_).any
  refine moves_mapInstructions (fun l _ h => .inl (List.mem_of_mem_erase h)) fun l => ?_
  exact filter_erase (by rw [hmoved]; rfl) l

/-- Exchanging the instructions of a block moves the old ones and the new ones. -/
theorem keeps_setInstructions (hs : s.Closed) (hblock : s.Has (.value block)) {insns : List Slot}
    (hinsns : ∀ slot ∈ insns, s.HasIn slot) (hmoved : ∀ slot, moved slot = true) :
    (setInstructions block insns).Keeps (.moves moved) s fun _ _ => True := by
  refine reads_fetch.bind fun v _ => ?_
  have hdetach : (v.instructions.forM detach).Keeps (.moves moved) s fun _ _ => True :=
    keeps_forM fun slot _ t (ht : s.Moves moved t) => keeps_detach (ht.closed hs) (hmoved slot)
  refine hdetach.bind fun _ t (ht : s.Moves moved t) _ => ?_
  have hnone : ∀ l : List Slot, l.filter (!moved ·) = [] := fun l =>
    List.filter_eq_nil_iff.mpr fun slot _ => by simp [hmoved]
  have hput : t.Moves moved (t.modify block (·.mapInstructions fun _ => insns)) :=
    moves_mapInstructions (fun _ slot hslot => .inr (ht.hasIn (hinsns slot hslot)))
      fun l => by rw [hnone, hnone]
  refine Keeps.bind (keeps_update hput) fun _ r (hr : t.Moves moved r) _ => ?_
  refine keeps_forM fun slot _ q (hq : r.Moves moved q) => reads_instructionIn.bind fun id _ => ?_
  have h := (ht.trans hr).trans hq
  exact keeps_linkTo (h.closed hs) (h.has hblock) (hmoved _)

end Blocks

/-- Placing an instruction after another behaves as inserting it into the block of the other. -/
theorem keeps_placeAfter {c : Conduct} (hs : s.Closed) {insn : ValueId} {after : Slot}
    (h : ∀ block, s.Has (.value block) → (insertAfter block insn after).Keeps c s fun _ _ => True) :
    (placeAfter insn after).Keeps c s fun _ _ => True := by
  refine reads_get.bind fun t ht => ?_
  subst ht
  refine reads_require.bind fun _ _ => reads_instructionIn.bind fun target _ => ?_
  refine reads_get.bind fun t' ht' => ?_
  subst ht'
  split
  · exact keeps_throw rfl
  · next block hblock =>
    obtain ⟨o, ho, hlink⟩ := Option.bind_eq_some_iff.mp hblock
    exact h block ((hs.holdsOnly ho).block block hlink _ rfl)

/-- Taking an instruction out of its block behaves as removing it from that block. -/
theorem keeps_removeFromParent {c : Conduct} {insn : ValueId}
    (h : ∀ block, (removeFrom block (.ofValue insn)).Keeps c s fun _ _ => True) :
    (removeFromParent insn).Keeps c s fun _ _ => True := by
  refine reads_get.bind fun t ht => ?_
  subst ht
  split
  · exact h _
  · exact keeps_pure trivial

theorem reads_nextInstruction (insn : ValueId) :
    (nextInstruction insn).Reads s fun _ => True := by
  refine reads_get.bind_reads fun t ht => ?_
  subst ht
  split
  · exact reads_pure trivial
  · exact reads_indexIn.bind_reads fun _ _ => reads_fetch.bind_pure fun _ _ => trivial

section Functions

variable {function : FunctionId}

/-- Exchanging the arguments of a function moves the old ones and the new ones. -/
theorem keeps_setArguments (hfunction : s.Has (.function function)) {arguments : List Slot}
    (harguments : ∀ slot ∈ arguments, s.HasIn slot) (hmoved : ∀ slot, moved slot = true) :
    (setArguments function arguments).Keeps (.moves moved) s fun _ _ => True := by
  refine reads_fetch.bind fun o _ => ?_
  have hleave : (o.arguments.forM fun slot => do
      setFunction (← valueIn slot) none).Keeps (.moves moved) s fun _ _ => True :=
    keeps_forM fun slot _ t _ => reads_valueIn.bind fun id _ =>
      keeps_setFunction (hmoved _) fun f hf => nomatch hf
  refine hleave.bind fun _ t (ht : s.Moves moved t) _ => ?_
  have hput : t.Moves moved (t.modify function fun f => { f with arguments }) :=
    moves_function fun hs o ho =>
      { hs.function ho with arguments := fun slot hslot => ht.hasIn (harguments slot hslot) }
  refine Keeps.bind (keeps_update hput) fun _ r (hr : t.Moves moved r) _ => ?_
  refine keeps_forM fun slot _ q (hq : r.Moves moved q) => reads_valueIn.bind fun id _ => ?_
  refine keeps_setFunction (hmoved _) fun f hf => ?_
  cases hf
  exact ((ht.trans hr).trans hq).has hfunction

/-- A block moves into a function. -/
theorem keeps_addBlock (hfunction : s.Has (.function function)) {block : ValueId}
    (hblock : s.Has (.value block)) (hmoved : moved (.ofValue block) = true) :
    (addBlock function block).Keeps (.moves moved) s fun _ _ => True := by
  have hlink : (setFunction block (some function)).Keeps (.moves moved) s fun _ _ => True := by
    refine keeps_setFunction hmoved fun f hf => ?_
    cases hf
    exact hfunction
  refine hlink.bind fun _ t (ht : s.Moves moved t) _ => (keeps_update ?_).any
  refine moves_function fun hs o ho => { hs.function ho with blocks := fun b hb => ?_ }
  rcases List.mem_append.mp hb with hb | hb
  · exact (hs.function ho).blocks b hb
  · rw [List.mem_singleton.mp hb]
    exact hasIn_some.mpr (ht.has hblock)

end Functions

end SsaDebugInfo
