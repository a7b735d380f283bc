import SsaDebugInfo.Proofs.Edit

/-!
# The program apart from its debug records

What debug records say about a program is no part of it. A change leaves the program undisturbed
(`Store.Undisturbed`) if, apart from debug records and wrappers, instructions keep their order,
users their operands and values their users, and what values are, what they are called and where
they stand stays the same. Only the values that were there in the beginning are looked at, so that a
new record may be filled in step by step.

- `Undisturbed.of_values`, `Undisturbed.push_value`: other objects, and new values.
- `Undisturbed.of_reuses`: new operands for a record.
- `Undisturbed.of_moves`: a record moved.
-/

namespace SsaDebugInfo

theorem Value.Carries.isDebugValue {v w : Value} (h : v.Carries w) :
    w.isDebugValue = v.isDebugValue := by
  rw [Value.isDebugValue, Value.isDebugValue, Value.binding?, Value.binding?, h.opcode]

namespace Store

variable {s t r : Store} {old : ValueId → Prop}

/-- Whether what stands in a list of instructions is no debug record. -/
def isProgram (s : Store) (slot : Slot) : Bool :=
  slot.value?.elim true fun v => !s.isRecord v

/-- Apart from debug records and wrappers, the values that were there in the beginning are seen the
same, and instructions stand in the same order. -/
structure Undisturbed (old : ValueId → Prop) (s t : Store) : Prop extends s.Extends t where
  isRecord : ∀ {v}, s.Has (.value v) → t.isRecord v = s.isRecord v
  wrappedAt : ∀ {w}, s.Has (.value w) → t.wrappedAt w = s.wrappedAt w
  program : ∀ b, (t.instructionsOf b).filter t.isProgram = (s.instructionsOf b).filter s.isProgram
  operandsOf : ∀ {u}, old u → s.Has (.value u) → s.isRecord u = false →
    t.operandsOf u = s.operandsOf u
  usesOf : ∀ {v}, old v → s.Has (.value v) → s.wrappedAt v = none → t.usesOf v = s.usesOf v
  carries : ∀ {v : ValueId} {a : Value}, old v → s.get? v = some a →
    ∃ b : Value, t.get? v = some b ∧ a.Carries b
  stays : ∀ {v : ValueId} {a : Value}, old v → s.get? v = some a → a.isDebugValue = false →
    ∃ b : Value, t.get? v = some b ∧ a.Stays b

theorem isRecord_eq {v : ValueId} {a : Value} (h : s.get? v = some a) :
    s.isRecord v = a.isDebugValue := by
  rw [isRecord, h]
  rfl

theorem wrappedAt_eq {v : ValueId} {a : Value} (h : s.get? v = some a) :
    s.wrappedAt v = a.wrapped? := by
  rw [wrappedAt, h]
  rfl

/-- Which of the instructions that are there belong to the program depends on them alone. -/
theorem filter_isProgram_congr (hrecord : ∀ {v}, s.Has (.value v) → t.isRecord v = s.isRecord v)
    {l : List Slot} (hl : ∀ slot ∈ l, s.HasIn slot) :
    l.filter t.isProgram = l.filter s.isProgram := by
  refine List.filter_congr fun slot hslot => ?_
  unfold isProgram
  cases hv : slot.value? with
  | none => rfl
  | some v =>
    obtain rfl := Slot.value?_eq_some_iff.mp hv
    rw [Option.elim_some, Option.elim_some, hrecord (hasIn_some.mp (hl _ hslot))]

theorem Closed.hasIn_instruction (hs : s.Closed) {b : ValueId} {slot : Slot}
    (h : slot ∈ s.instructionsOf b) : s.HasIn slot := by
  unfold instructionsOf at h
  cases hb : s.get? b with
  | none =>
    rw [hb] at h
    cases h
  | some a =>
    rw [hb] at h
    exact (hs.holdsOnly hb).instructions slot h

namespace Undisturbed

theorem refl (old : ValueId → Prop) (s : Store) : s.Undisturbed old s where
  toExtends := .refl s
  isRecord _ := rfl
  wrappedAt _ := rfl
  program _ := rfl
  operandsOf _ _ _ := rfl
  usesOf _ _ _ := rfl
  carries _ h := ⟨_, h, .refl _⟩
  stays _ h _ := ⟨_, h, .refl _⟩

theorem trans (hst : s.Undisturbed old t) (htr : t.Undisturbed old r) : s.Undisturbed old r where
  toExtends := hst.toExtends.trans htr.toExtends
  isRecord hv := (htr.isRecord (hst.has hv)).trans (hst.isRecord hv)
  wrappedAt hw := (htr.wrappedAt (hst.has hw)).trans (hst.wrappedAt hw)
  program b := (htr.program b).trans (hst.program b)
  operandsOf hold hu hrecord := by
    have hrecord' := (hst.isRecord hu).trans hrecord
    exact (htr.operandsOf hold (hst.has hu) hrecord').trans (hst.operandsOf hold hu hrecord)
  usesOf hold hv hwrapped := by
    have hwrapped' := (hst.wrappedAt hv).trans hwrapped
    exact (htr.usesOf hold (hst.has hv) hwrapped').trans (hst.usesOf hold hv hwrapped)
  carries hold ha := by
    obtain ⟨b, hb, hab⟩ := hst.carries hold ha
    obtain ⟨c, hc, hbc⟩ := htr.carries hold hb
    exact ⟨c, hc, hab.trans hbc⟩
  stays hold ha hrecord := by
    obtain ⟨b, hb, hab⟩ := hst.stays hold ha hrecord
    obtain ⟨c, hc, hbc⟩ := htr.stays hold hb (hab.isDebugValue.trans hrecord)
    exact ⟨c, hc, hab.trans hbc⟩

/-- Changes of other objects than values leave the program undisturbed. -/
theorem of_values (hext : s.Extends t) (hget : ∀ v : ValueId, t.get? v = s.get? v) :
    s.Undisturbed old t where
  toExtends := hext
  isRecord _ := by rw [Store.isRecord, hget, Store.isRecord]
  wrappedAt _ := by rw [Store.wrappedAt, hget, Store.wrappedAt]
  program b := by
    have hprogram : t.isProgram = s.isProgram := by
      funext slot
      unfold isProgram
      simp only [Store.isRecord, hget]
    rw [hprogram, instructionsOf, hget, instructionsOf]
  operandsOf _ _ _ := by rw [Store.operandsOf, hget, Store.operandsOf]
  usesOf _ _ _ := by rw [Store.usesOf, hget, Store.usesOf]
  carries _ ha := ⟨_, (hget _).trans ha, .refl _⟩
  stays _ ha _ := ⟨_, (hget _).trans ha, .refl _⟩

/-- What changes values but not where they stand leaves the program undisturbed, if it does not
touch the operands of the program's users and the uses of the program's values. -/
theorem of_stays (hs : s.Closed) (hext : s.Extends t)
    (hstays : ∀ {v : ValueId} {a : Value}, s.get? v = some a →
      ∃ b : Value, t.get? v = some b ∧ a.Stays b)
    (hwrapped : ∀ {w}, s.Has (.value w) → t.wrappedAt w = s.wrappedAt w)
    (hlists : ∀ b, t.instructionsOf b = s.instructionsOf b)
    (hoperands : ∀ {u}, old u → s.Has (.value u) → s.isRecord u = false →
      t.operandsOf u = s.operandsOf u)
    (huses : ∀ {v}, old v → s.Has (.value v) → s.wrappedAt v = none →
      t.usesOf v = s.usesOf v) : s.Undisturbed old t := by
  have hrecord : ∀ {v}, s.Has (.value v) → t.isRecord v = s.isRecord v := by
    intro v hv
    obtain ⟨a, ha⟩ := has_value_iff.mp hv
    obtain ⟨b, hb, hab⟩ := hstays ha
    rw [isRecord_eq ha, isRecord_eq hb, hab.isDebugValue]
  refine ⟨hext, hrecord, hwrapped, fun b => ?_, hoperands, huses, fun _ ha => ?_,
    fun _ ha _ => hstays ha⟩
  · rw [hlists]
    exact filter_isProgram_congr hrecord fun slot => hs.hasIn_instruction
  · obtain ⟨b, hb, hab⟩ := hstays ha
    exact ⟨b, hb, hab.toCarries⟩

/-- A new value leaves the program undisturbed. -/
theorem push_value (hs : s.Closed) {object : Value} (hinstructions : object.instructions = []) :
    s.Undisturbed old (s.push .value object) := by
  have hget : ∀ {v : ValueId}, s.Has (.value v) → (s.push .value object).get? v = s.get? v := by
    intro v hv
    have hne : v ≠ s.nextId .value := ne_nextId hv
    rw [get?_push, if_neg hne]
  -- values that were there stand as they stood, and no list holds the new one
  refine of_stays hs (.push .value object) (fun {v a} ha => ⟨a, ?_, .refl a⟩) (fun hw => ?_)
    (fun b => ?_) (fun _ hu _ => ?_) fun _ hv _ => ?_
  · rw [hget (has_value_iff.mpr ⟨a, ha⟩), ha]
  · rw [Store.wrappedAt, hget hw, Store.wrappedAt]
  · rw [instructionsOf, get?_push, instructionsOf]
    split
    · next hb =>
      rw [hb, get?_nextId]
      exact hinstructions
    · rfl
  · rw [Store.operandsOf, hget hu, Store.operandsOf]
  · rw [Store.usesOf, hget hv, Store.usesOf]

/-- New operands for a record, or for what was not there, leave the program undisturbed if only uses
of wrappers are touched. -/
theorem of_reuses (hs : s.Closed) {user : ValueId} {touched : Slot → Prop}
    (h : Reuses user touched s t) (huser : old user → s.isRecord user = true)
    (htouched : ∀ v, touched (.ofValue v) → s.wrappedAt v ≠ none) : s.Undisturbed old t := by
  refine of_stays hs h.toExtends h.stays (fun _ => h.wrappedAt _) h.instructionsOf
    (fun hold _ hrecord => h.operandsOf _ ?_) fun _ _ hwrapped => h.untouched _ ?_
  · rintro rfl
    rw [huser hold] at hrecord
    cases hrecord
  · exact fun hv => htouched _ hv hwrapped

/-- Moving records leaves the program undisturbed. -/
theorem of_moves (hs : s.Closed) {moved : Slot → Bool} (h : Moves moved s t)
    (hmoved : ∀ v, moved (.ofValue v) = true → s.isRecord v = true)
    (hvalues : ∀ slot, moved slot = true → ∃ v, slot = Slot.ofValue v) : s.Undisturbed old t := by
  have hrecord : ∀ {v}, s.Has (.value v) → t.isRecord v = s.isRecord v := h.isRecord
  refine ⟨h.toExtends, hrecord, fun _ => h.wrappedAt _, fun b => ?_, fun _ _ _ => h.operandsOf _,
    fun _ _ _ => h.usesOf _, fun _ ha => h.carries ha, fun _ ha hvalue => h.stays ha ?_⟩
  · -- what is moved is no part of the program, so that only the rest of the list counts
    have hout : ∀ {u : Store} {l : List Slot},
        (∀ {v}, s.Has (.value v) → u.isRecord v = s.isRecord v) →
        l.filter u.isProgram = (l.filter (!moved ·)).filter u.isProgram := by
      intro u l hu
      rw [List.filter_filter]
      refine List.filter_congr fun slot _ => ?_
      cases hslot : moved slot with
      | false => simp
      | true =>
        obtain ⟨v, rfl⟩ := hvalues slot hslot
        have hv := hmoved v hslot
        have hprogram : u.isProgram (.ofValue v) = !u.isRecord v := rfl
        rw [hprogram, hu (has_of_isRecord hv), hv]
        rfl
    rw [hout hrecord, hout fun _ => rfl, h.lists]
    refine filter_isProgram_congr hrecord fun slot hslot => ?_
    exact hs.hasIn_instruction (List.mem_filter.mp hslot).1
  · cases hslot : moved (.ofValue _) with
    | false => rfl
    | true =>
      have hv := hmoved _ hslot
      rw [isRecord_eq ha, hvalue] at hv
      cases hv

/-- A change of a value that was not there in the beginning leaves the program undisturbed. -/
theorem modify_value (hs : s.Closed) {id : ValueId} {f : Value → Value} (hnew : ¬ old id)
    (hlike : ∀ a, Value.Like a (f a)) (hlist : ∀ a : Value, (f a).instructions = a.instructions) :
    s.Undisturbed old (s.modify id f) := by
  have hrecord : ∀ {v}, s.Has (.value v) → (s.modify id f).isRecord v = s.isRecord v := by
    intro v _
    exact asked_modify (fun o : Option (Object .value) => (o.map Value.isDebugValue).getD false)
      (fun a _ => (hlike a).isDebugValue) v
  -- the values there in the beginning are not the one that changes
  have hother : ∀ {v}, old v → (s.modify id f).get? v = s.get? v := by
    intro v hold
    rw [get?_modify, if_neg]
    rintro rfl
    exact hnew hold
  refine ⟨.modify id f, hrecord, fun {w} _ => ?_, fun b => ?_, fun hold _ _ => ?_,
    fun hold _ _ => ?_, fun hold ha => ⟨_, (hother hold).trans ha, .refl _⟩,
    fun hold ha _ => ⟨_, (hother hold).trans ha, .refl _⟩⟩
  · exact asked_modify (fun o : Option (Object .value) => o.bind Value.wrapped?)
      (fun a _ => (hlike a).wrapped?) w
  · have hlists : (s.modify id f).instructionsOf b = s.instructionsOf b :=
      asked_modify (fun o : Option (Object .value) => (o.map Value.instructions).getD [])
        (fun a _ => hlist a) b
    rw [hlists]
    exact filter_isProgram_congr hrecord fun slot => hs.hasIn_instruction
  · rw [Store.operandsOf, hother hold, Store.operandsOf]
  · rw [Store.usesOf, hother hold, Store.usesOf]

end Undisturbed

end Store

end SsaDebugInfo
