import SsaDebugInfo.Proofs.Script.Relocation

/-!
# What a migration makes of a store

Where the debug operations alone make and rebind records, lists and links agree and names are
registered, a migration from a value with one record to an instruction in a block of the function
that the record is in does not fault. It leaves a store that is in order again, and the record and
the target alone say what has become of lists, of names and of what is tracked. So migrations that
follow one another can be compared.

- `Store.InOrder`, `Store.CanMigrate`: where a migration succeeds.
- `Store.Migrated`: what has become of lists, names and what is tracked.
- `InOrder.migrates`: a migration, from a store in order to a store in order.
-/

namespace SsaDebugInfo

open Act Store

variable {s t : Store} {b r v source target : ValueId}

namespace Store

/-- Records are as the debug operations make them, what is in a list is linked to its block, and
what is in a function is registered there. -/
structure InOrder (s : Store) : Prop where
  sound : s.Sound
  recorded : s.Recorded
  wrapsOlder : s.WrapsOlder
  proper : s.Proper
  listsAgree : s.ListsAgree
  registered : s.Registered

/-- The record is the only one that tracks the source, its variable has a name, and the target is
another instruction, in a block of the function that the record is in. -/
structure CanMigrate (s : Store) (source r target : ValueId) : Prop where
  sole : s.SoleRecord r source
  described : (s.describedName r).isOk = true
  apart : target ≠ r
  placed : ∃ b, s.blockOf? target = some b ∧ s.functionOf? r = s.functionOf? b

/-- The record tracks the target and stands right behind it, and nothing else has changed: neither
where other things stand and what they track, nor what anything is called. -/
structure Migrated (r target : ValueId) (s t : Store) : Prop where
  has : ∀ {v}, s.Has (.value v) → t.Has (.value v)
  instructionsOf : ∀ b, t.instructionsOf b =
    putAfter (.ofValue target) (.ofValue r) ((s.instructionsOf b).filter (· != .ofValue r))
  blockOf? : ∀ {v b}, v ≠ r → s.blockOf? v = some b → t.blockOf? v = some b
  functionOf? : ∀ {v}, s.Has (.value v) → t.functionOf? v = s.functionOf? v
  nameOf? : ∀ {v}, s.Has (.value v) → t.nameOf? (.value v) = s.nameOf? (.value v)
  names : ∀ f, (t.registry f).names.Perm (s.registry f).names
  nextName : ∀ f, (t.registry f).nextName = (s.registry f).nextName
  tracks : ∀ r' v, t.tracks r' v = true ↔ if r' = r then v = target else s.tracks r' v = true
  described : ∀ {r'}, (s.describedName r').isOk = true → (t.describedName r').isOk = true

/-! ## Moving a record within its function -/

theorem nameOf?_of_isRecord (h : s.isRecord r = true) :
    s.nameOf? (.value r) = (s.siteOf? r).map Site.name := by
  obtain ⟨o, ho, hdebug⟩ := isRecord_iff.mp h
  show (s.get? r).bind Value.name? = _
  rw [siteOf?_eq ho, ho]
  obtain ⟨_, shape, _, _⟩ := o
  cases shape with
  | instruction => rfl
  | _ => cases hdebug

/-- A record has been moved within its function, whatever it holds: other values do, hold and are
called what they were, and stand where they stood. -/
structure Resettled (r target : ValueId) (s t : Store) : Prop
    extends s.Relocated r target t, s.SameNaming t where
  stays : ∀ {v : ValueId} {a : Value}, v ≠ r → s.get? v = some a →
    ∃ b : Value, t.get? v = some b ∧ a.Stays b
  operandsOf : ∀ v, v ≠ r → t.operandsOf v = s.operandsOf v

theorem Registered.of_sameNaming (hs : s.Registered) (h : s.SameNaming t) : t.Registered := by
  intro v f name hseat
  rw [h.seat?] at hseat
  exact (h.names f).mem_iff.mpr (hs v f name hseat)

theorem Rebound.resettled {p : Store} (hp : s.Rebound r p) (h : p.Relocated r target t)
    (hnaming : p.SameNaming t) (hmoves : p.Moves (· == .ofValue r) t) : s.Resettled r target t where
  toRelocated := h.of_unmoved hp.unmoved (has_of_isRecord hp.record) fun a ha => by
    obtain ⟨b, hb, hstays⟩ := hp.stays ha
    exact ⟨b, hb, hstays.toCarries⟩
  toSameNaming := (SameNaming.of_naming hp.unmoved.naming).trans hnaming
  stays hv ha := by
    obtain ⟨b, hb, hab⟩ := hp.stays ha
    obtain ⟨c, hc, hbc⟩ := hmoves.stays hb (by simpa using hv)
    exact ⟨c, hc, hab.trans hbc⟩
  operandsOf v hv := (hmoves.toAside.operandsOf v).trans (hp.operandsOf v hv)

namespace Resettled

variable (h : s.Resettled r target t)

include h

theorem carries_all {a : Value} (ha : s.get? v = some a) :
    ∃ b : Value, t.get? v = some b ∧ a.Carries b := by
  by_cases hv : v = r
  · subst hv
    exact h.carries a ha
  · obtain ⟨b, hb, hstays⟩ := h.stays hv ha
    exact ⟨b, hb, hstays.toCarries⟩

theorem isRecord (hv : s.Has (.value v)) : t.isRecord v = s.isRecord v := by
  obtain ⟨a, ha⟩ := has_value_iff.mp hv
  obtain ⟨b, hb, hcarries⟩ := h.carries_all ha
  rw [isRecord_eq hb, isRecord_eq ha, Value.isDebugValue, Value.isDebugValue, Value.binding?,
    Value.binding?, hcarries.opcode]

theorem blockOf? (hv : v ≠ r) (hb : s.blockOf? v = some b) : t.blockOf? v = some b := by
  obtain ⟨a, ha, hab⟩ := Option.bind_eq_some_iff.mp hb
  obtain ⟨a', ha', hstays⟩ := h.stays hv ha
  rw [Store.blockOf?, ha', Option.bind_some, hstays.block, hab]

variable (hb : s.blockOf? target = some b) (hsame : s.functionOf? r = s.functionOf? b)

include hb hsame

theorem siteOf?_record : t.siteOf? r = s.siteOf? r := by
  refine (h.toRelocated.sameNames fun c hc => ?_).site
  rw [hsame, Option.some_inj.mp (hb.symm.trans hc)]

theorem functionOf? (hv : s.Has (.value v)) : t.functionOf? v = s.functionOf? v := by
  by_cases hr : v = r
  · rw [hr]
    exact functionOf?_of_siteOf? (h.siteOf?_record hb hsame)
  · obtain ⟨a, ha⟩ := has_value_iff.mp hv
    obtain ⟨a', ha', hstays⟩ := h.stays hr ha
    rw [Store.functionOf?, ha', Store.functionOf?, ha]
    exact hstays.function

theorem nameOf? (hrecord : s.isRecord r = true) (hv : s.Has (.value v)) :
    t.nameOf? (.value v) = s.nameOf? (.value v) := by
  by_cases hr : v = r
  · subst hr
    rw [nameOf?_of_isRecord ((h.isRecord hv).trans hrecord), nameOf?_of_isRecord hrecord,
      h.siteOf?_record hb hsame]
  · obtain ⟨a, ha⟩ := has_value_iff.mp hv
    obtain ⟨a', ha', hstays⟩ := h.stays hr ha
    show (t.get? v).bind Value.name? = (s.get? v).bind Value.name?
    rw [ha', ha]
    exact hstays.name

omit hsame in
/-- In the list of the target the record stands right behind it, and it is in no other list. -/
theorem instructionsOf (hlists : s.ListsAgree) (c : ValueId) : t.instructionsOf c =
    putAfter (.ofValue target) (.ofValue r) ((s.instructionsOf c).filter (· != .ofValue r)) := by
  rw [← h.rest c]
  by_cases hc : s.blockOf? target = some c
  · exact eq_putAfter (h.listsAgree.once c) (h.beside c hc)
  · have hbehind : .ofValue r ∈ t.instructionsOf b := (h.beside b hb).subset (by simp)
    have hr : t.blockOf? r = some b := h.listsAgree.mem_instructionsOf.mp hbehind
    have hgone : .ofValue r ∉ t.instructionsOf c := by
      rw [h.listsAgree.mem_instructionsOf, hr]
      rwa [hb] at hc
    have hall : (t.instructionsOf c).filter (· != .ofValue r) = t.instructionsOf c :=
      List.filter_eq_self.mpr fun slot hslot => by
        simpa using fun heq : slot = .ofValue r => hgone (heq ▸ hslot)
    have habsent : .ofValue target ∉ (t.instructionsOf c).filter (· != .ofValue r) := by
      rw [h.rest]
      exact fun hmem => hc (hlists.mem_instructionsOf.mp (List.mem_of_mem_filter hmem))
    rw [putAfter_of_not_mem _ habsent, hall]

end Resettled

end Store

/-! ## Migrating within a function -/

/-- A migration to an instruction of the function that the record is in resettles the record that
the finder yields. -/
theorem migrate_resettles (hs : s.InOrder) (hsource : s.Has (.value source))
    (hb : s.blockOf? target = some b)
    (hfind : ∀ r u, (findRecord (.ofValue source)).run s = (.ok (some r), u) →
      target ≠ r ∧ s.functionOf? r = s.functionOf? b) :
    (migrate (.ofValue source) (.ofValue target)).Ends s
      (fun _ t => ∀ r u, (findRecord (.ofValue source)).run s = (.ok (some r), u) →
        s.Resettled r target t)
      fun _ t => s.Intact t ∧ ∃ r u, (findRecord (.ofValue source)).run s = (.ok (some r), u) ∧
        (s.describedName r).isOk = false := by
  refine migrate_ends_of hs.sound hs.wrapsOlder (fun r hr => (hs.recorded r hr).1) hsource
    (has_of_formOf? (formOf?_of_blockOf? hb)) fun r u p hfound hp => ?_
  obtain ⟨hne, hsame⟩ := hfind r u hfound
  have hlists := hs.listsAgree.of_unmoved hp.unmoved
  have hregistered := hs.registered.of_unmoved hp.unmoved
  have hproper := hs.proper.of_registry hp.unmoved.registry
  have hform := formOf?_of_isRecord hp.isRecord
  have hrelocates := relocate_relocates hp.sound hlists hregistered hproper hform hne
  have hnaming := relocate_sameNaming hp.sound hlists hregistered hproper hform hne fun c hc => by
    rw [hp.unmoved.blockOf?, hb] at hc
    rw [hp.unmoved.functionOf?, hp.unmoved.functionOf?, hsame, Option.some_inj.mp hc]
  have hmoves := (keeps_relocate (d := {}) hp.sound (has_of_isRecord hp.isRecord)
    (.ofValue target)).ends
  refine ((hrelocates.also hnaming).also hmoves).mono ?_ fun _ _ hf => hf
  rintro _ t ⟨⟨hrelocated, hnaming, _⟩, ⟨_, hmoves⟩, _⟩
  exact hp.resettled hrelocated hnaming hmoves

/-- What a migration that has resettled a record makes of the store. -/
theorem Store.Resettled.migrated (hs : s.InOrder) (hb : s.blockOf? target = some b)
    (hsame : s.functionOf? r = s.functionOf? b) {u : Store}
    (hfind : (findRecord (.ofValue source)).run s = (.ok (some r), u))
    (htracked : s.tracks r source = true)
    (hrun : (migrate (.ofValue source) (.ofValue target)).run s = (.ok (), t))
    (h : s.Resettled r target t) (hmore : s.MoreTables t) : s.Migrated r target t := by
  obtain ⟨_, _, hfind', hmoved, _⟩ :=
    migrate_spec hs.sound hs.recorded (has_of_tracks htracked) hrun
  rw [hfind] at hfind'
  cases hfind'
  let scope : Scope := { places := true, nodes := fun n => n.handleOf?.isSome = true }
  have htouches : Touches scope s t :=
    ((touches_migrate rfl (fun _ hn => hn) (.ofValue source) (.ofValue target)).ends s).ok hrun
  have hnames : ∀ v, s.Has (.value v) → t.nameOf? (.value v) = s.nameOf? (.value v) :=
    fun v => h.nameOf? hb hsame (tracks_iff.mp htracked).1
  exact {
    has := hmore.has
    instructionsOf := h.instructionsOf hb hs.listsAgree
    blockOf? := h.blockOf?
    functionOf? := h.functionOf? hb hsame
    nameOf? := hnames _
    names := h.names
    nextName := h.nextName
    tracks := fun r' v => by
      by_cases hr' : r' = r
      · rw [if_pos hr', hr']
        exact ⟨(hmoved r rfl).2 v, fun hv => hv ▸ (hmoved r rfl).1⟩
      · rw [if_neg hr', hmore.tracks hs.sound h.isRecord (h.operandsOf r' hr')]
    described := fun hname => isOk_describedName_of (fun _ => h.carries_all)
      (fun _ => isSome_nameOf?_of hmore.toExtends hnames (htouches.get?_node fun _ hn => hn))
      hname }

/-- Edits of the debug operations leave a store in order where lists and links agree after them and
names are registered. -/
theorem Store.InOrder.of_edits (hs : s.InOrder) (h : Edits { records := true } s t)
    (hlists : t.ListsAgree) (hregistered : t.Registered) : t.InOrder where
  sound := (h.induction (P := fun _ => True) (fun _ _ _ => trivial) hs.sound trivial).1
  recorded :=
    (h.induction (fun hu hrecorded he => hrecorded.kept_by_edit rfl hu he) hs.sound hs.recorded).2
  wrapsOlder := hs.wrapsOlder.of_edits hs.sound h
  proper := (h.induction (fun _ hproper he => hproper.kept_by_edit he) hs.sound hs.proper).2
  listsAgree := hlists
  registered := hregistered

/-- Where the record of a value can be migrated to a target, it is, and the store is in order
again. -/
theorem Store.InOrder.migrates (hs : s.InOrder) (h : s.CanMigrate source r target) :
    ∃ t, (migrate (.ofValue source) (.ofValue target)).run s = (.ok (), t) ∧ t.InOrder ∧
      s.Migrated r target t := by
  obtain ⟨b, hb, hsame⟩ := h.placed
  have htracked : s.tracks r source = true := (h.sole r).mpr rfl
  obtain ⟨u, hfind⟩ := findRecord_sole hs.sound hs.recorded h.sole
  have honly : ∀ r' u', (findRecord (.ofValue source)).run s = (.ok (some r'), u') → r = r' := by
    intro r' u' hfind'
    rw [hfind] at hfind'
    cases hfind'
    rfl
  have hends := migrate_resettles hs (has_of_tracks htracked) hb fun r' u' hfind' => by
    obtain rfl := honly r' u' hfind'
    exact ⟨h.apart, hsame⟩
  rcases hrun : (migrate (.ofValue source) (.ofValue target)).run s with ⟨⟨f⟩ | ⟨⟩, t⟩
  · obtain ⟨_, r', u', hfind', hnameless⟩ := hends.error hrun
    obtain rfl := honly r' u' hfind'
    cases h.described.symm.trans hnameless
  · have hresettled := hends.ok hrun r u hfind
    have hedited : Edited { records := true } s t := ((keeps_migrate hs.sound rfl
      (fun hf => hf.elim) (.ofValue source) (.ofValue target)).edits.ok hrun).1
    refine ⟨t, rfl, hs.of_edits hedited.edits hresettled.listsAgree ?_, ?_⟩
    · exact hs.registered.of_sameNaming hresettled.toSameNaming
    · exact hresettled.migrated hs hb hsame hfind htracked hrun (hedited.edits.moreTables hs.sound)

namespace Store

/-- A record that has been migrated tracks its target and no other value. -/
theorem Migrated.tracks_record (h : s.Migrated r target t) :
    t.tracks r v = true ↔ v = target := by
  rw [h.tracks, if_pos rfl]

/-- It stands right behind its target. -/
theorem Migrated.beside (h : s.Migrated r target t) (hs : s.ListsAgree) (hne : target ≠ r)
    (hb : s.blockOf? target = some b) :
    [.ofValue target, .ofValue r] <:+: t.instructionsOf b := by
  have htarget : .ofValue target ∈ (s.instructionsOf b).filter (· != .ofValue r) :=
    List.mem_filter.mpr ⟨hs.mem_instructionsOf.mpr hb, by simpa using hne⟩
  rw [h.instructionsOf]
  exact infix_putAfter_self _ htarget

/-- What a record could be moved to before a migration is in a block of its function after it,
unless it is what has been migrated. -/
theorem Migrated.placed {source' r' target' : ValueId} (h : s.Migrated r target t) (hs : s.InOrder)
    (hcan : s.CanMigrate source' r' target') (htarget : target' ≠ r) :
    ∃ b, t.blockOf? target' = some b ∧ t.functionOf? r' = t.functionOf? b := by
  obtain ⟨b, hb, hsame⟩ := hcan.placed
  have hblock : s.Has (.value b) :=
    has_of_formOf? (formOf?_of_mem_instructionsOf (hs.listsAgree.mem_instructionsOf.mpr hb))
  have hrecord : s.Has (.value r') := has_of_isRecord (tracks_iff.mp ((hcan.sole r').mpr rfl)).1
  refine ⟨b, h.blockOf? htarget hb, ?_⟩
  rw [h.functionOf? hrecord, h.functionOf? hblock, hsame]

/-- The record of another value can be migrated after a migration as before it, unless one of the
two targets is the source or the record of the other migration. -/
theorem CanMigrate.after {source' r' target' : ValueId} (h : s.CanMigrate source' r' target')
    (hs : s.InOrder) (ht : s.Migrated r target t) (hr : r' ≠ r) (hsource : target ≠ source')
    (htarget : target' ≠ r) : t.CanMigrate source' r' target' where
  sole r'' := by
    rw [ht.tracks]
    split
    · next heq => exact iff_of_false (Ne.symm hsource) fun h => hr (h.symm.trans heq)
    · exact h.sole r''
  described := ht.described h.described
  apart := h.apart
  placed := ht.placed hs h htarget

end Store

namespace Script.Session

/-- While the debug operations alone make records and change their operands, a session is in order
where lists and links agree and names are registered. -/
theorem Reachable.inOrder {d : Discipline} {session : Session} (hd : d.records = true)
    (h : Reachable d session) (hlists : session.store.ListsAgree)
    (hregistered : session.store.Registered) : session.store.InOrder :=
  ⟨h.sound.store, h.recorded hd, h.wrapsOlder, h.proper, hlists, hregistered⟩

end Script.Session

end SsaDebugInfo
