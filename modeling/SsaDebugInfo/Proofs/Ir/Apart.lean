import SsaDebugInfo.Proofs.Ir.Enrolment

/-!
# Names that are told apart

A function releases a name when a value with this name leaves it. So the names of the others stay
registered if values of one function have different names (`Store.Apart`), whatever names have been
chosen before; and what stays registered can be released. While values enter a function, those that
are in it stay registered, so there it is enough that they are told apart in other functions.

- `Store.Transfers`, `setFunction_transfers`: a value changes its function.
- `Store.Registered.ends_place`: placing finds the names that it releases, and leaves names
  registered.
- `apart_yields`: the same for what is made of placements.
-/

namespace SsaDebugInfo

open Act Store

variable {s t u : Store} {v w x c : ValueId} {f : FunctionId} {g : Option FunctionId}

namespace Store

/-! ## Values with different names -/

/-- Values of one function have different names. -/
def Apart (s : Store) : Prop :=
  ∀ v w seat, s.seat? v = some seat → s.seat? w = some seat → v = w

/-- Values of one function have different names, unless it is the given one. -/
def ApartBut (g : Option FunctionId) (s : Store) : Prop :=
  ∀ v w f name, s.seat? v = some (f, name) → s.seat? w = some (f, name) → g = some f ∨ v = w

theorem Apart.but (h : s.Apart) (g : Option FunctionId) : s.ApartBut g :=
  fun v w f name hv hw => .inr (h v w (f, name) hv hw)

theorem ApartBut.apart (h : s.ApartBut none) : s.Apart :=
  fun v w seat hv hw => (h v w seat.1 seat.2 hv hw).elim nofun id

/-- Whether values are told apart is seen from those that have been made. -/
theorem apart_iff : s.Apart ↔ ∀ i < s.values.size, ∀ j < s.values.size,
    ∀ seat ∈ s.seat? ⟨i⟩, s.seat? ⟨j⟩ = some seat → i = j := by
  constructor
  · exact fun h i _ j _ seat hi hj => congrArg Id.index (h ⟨i⟩ ⟨j⟩ seat hi hj)
  · intro h v w seat hv hw
    obtain ⟨o, ho, _⟩ := Option.bind_eq_some_iff.mp hv
    obtain ⟨p, hp, _⟩ := Option.bind_eq_some_iff.mp hw
    exact congrArg Id.mk (h v.index (index_lt_of_get? ho) w.index (index_lt_of_get? hp) seat hv hw)

instance : Decidable s.Apart :=
  decidable_of_iff _ apart_iff.symm

/-- Whether names differ depends on names alone. -/
theorem Apart.of_naming (hs : s.Apart) (h : t.naming = s.naming) : t.Apart := by
  have hseat : t.seat? = s.seat? := congrArg Naming.seat h
  intro v w seat
  rw [hseat]
  exact hs v w seat

/-- Whether names are registered depends on names alone. -/
theorem Registered.of_naming (hs : s.Registered) (h : t.naming = s.naming) : t.Registered := by
  have hseat : t.seat? = s.seat? := congrArg Naming.seat h
  have hregistry : t.registry = s.registry := congrArg Naming.registry h
  intro v f name
  rw [hseat, hregistry]
  exact hs v f name

/-- A value keeps its function alive, and with it the name that is registered. -/
theorem Registered.collect (hs : s.Registered) (roots : List Slot) :
    (s.collect roots).Registered := by
  intro v f name hseat
  obtain ⟨hseat, hregistry⟩ := seat?_of_collect hseat
  rw [hregistry]
  exact hs v f name hseat

/-! ## Values that change their function -/

/-- A value gets another function, or none: a name may go only with the value that had it, and not
from the function that the value has then. -/
structure Transfers (v : ValueId) (g : Option FunctionId) (s t : Store) : Prop
    extends s.Extends t where
  others : ∀ w, w ≠ v → t.seat? w = s.seat? w
  seat : ∃ name, t.seat? v = g.map (·, name) ∧ ∀ f ∈ g, name ∈ (t.registry f).names
  keeps : ∀ f name, name ∈ (s.registry f).names → g = some f ∨ s.seat? v ≠ some (f, name) →
    name ∈ (t.registry f).names

namespace Transfers

/-- Only the value that changes its function has another one. -/
theorem functionOf? (h : s.Transfers v g t) (w : ValueId) :
    t.functionOf? w = s.functionOf? w ∨ t.functionOf? w = g := by
  rw [functionOf?_eq_seat?, functionOf?_eq_seat?]
  by_cases hw : w = v
  · subst hw
    obtain ⟨name, hseat, _⟩ := h.seat
    rw [hseat, Option.map_map]
    exact .inr Option.map_id'
  · exact .inl (congrArg _ (h.others w hw))

/-- Names stay registered if no other value has the name that goes. -/
theorem registered (h : s.Transfers v g t) (hs : s.Registered)
    (halone : ∀ w f name, s.seat? v = some (f, name) → s.seat? w = some (f, name) →
      g = some f ∨ v = w) : t.Registered := by
  intro w f name hw
  by_cases hwv : w = v
  · subst hwv
    obtain ⟨name', hseat, hregistered⟩ := h.seat
    rw [hw] at hseat
    obtain ⟨f', hf', hpair⟩ := Option.map_eq_some_iff.mp hseat.symm
    obtain ⟨rfl, rfl⟩ := Prod.mk.inj hpair
    exact hregistered f' hf'
  · rw [h.others w hwv] at hw
    refine h.keeps f name (hs w f name hw) ?_
    by_cases hv : s.seat? v = some (f, name)
    · exact .inl ((halone w f name hv hw).resolve_right (Ne.symm hwv))
    · exact .inr hv

/-- Values that are told apart in other functions still are. -/
theorem apartBut (h : s.Transfers v g t) (hs : s.ApartBut g) : t.ApartBut g := by
  -- what the value has changed to is the one function where names may meet
  have hself : ∀ f name, t.seat? v = some (f, name) → g = some f := by
    intro f name hv
    obtain ⟨name', hseat, _⟩ := h.seat
    rw [hv] at hseat
    obtain ⟨f', hf', hpair⟩ := Option.map_eq_some_iff.mp hseat.symm
    obtain ⟨rfl, _⟩ := Prod.mk.inj hpair
    exact hf'
  intro w w' f name hw hw'
  by_cases hwv : w = v
  · exact .inl (hself f name (hwv ▸ hw))
  · by_cases hwv' : w' = v
    · exact .inl (hself f name (hwv' ▸ hw'))
    · rw [h.others w hwv] at hw
      rw [h.others w' hwv'] at hw'
      exact hs w w' f name hw hw'

end Transfers

/-- Names are registered, and values are told apart, unless in the given function. -/
structure Enrolled (g : Option FunctionId) (s : Store) : Prop where
  registered : s.Registered
  apart : s.ApartBut g

/-- A value that changes its function leaves values enrolled. -/
theorem Enrolled.transfers (hs : s.Enrolled g) (h : s.Transfers v g t) : t.Enrolled g :=
  ⟨h.registered hs.registered fun w f name hv hw => hs.apart v w f name hv hw,
    h.apartBut hs.apart⟩

theorem Enrolled.of_naming (hs : s.Enrolled g) (h : t.naming = s.naming) : t.Enrolled g := by
  have hseat : t.seat? = s.seat? := congrArg Naming.seat h
  refine ⟨hs.registered.of_naming h, ?_⟩
  rw [ApartBut, hseat]
  exact hs.apart

end Store

/-- A function that registers a name keeps those that it has. -/
theorem Function.mem_names_register {p : Function} {base name : String} :
    name ∈ (p.register base).names ↔ name ∈ p.names ∨ name = p.freshName base := by
  show name ∈ (if p.names.contains (p.freshName base) then p.names
    else p.names ++ [p.freshName base]) ↔ _
  split
  · next htaken =>
    refine ⟨.inl, fun h => h.elim id ?_⟩
    rintro rfl
    exact List.contains_iff_mem.mp htaken
  · rw [List.mem_append, List.mem_singleton]

/-- How placing faults where names are registered: something holds, and no name is missing. -/
def nameFound (P : Store → Prop) (f : Fault) (t : Store) : Prop :=
  f ≠ .nameNotRegistered ∧ P t

/-- A fault that is none of bookkeeping is not for a name that was not found. -/
theorem nameFound.plain {P : Store → Prop} (hs : P s) {fault : Fault}
    (h : fault.isBookkeeping = false) : nameFound P fault s := by
  refine ⟨?_, hs⟩
  rintro rfl
  cases h

/-- What holds after a fault may be weakened. -/
theorem nameFound.mono {P Q : Store → Prop} (himp : ∀ {t}, P t → Q t) {fault : Fault}
    (h : nameFound P fault t) : nameFound Q fault t :=
  ⟨h.1, himp h.2⟩

/-- What leaves everything where it is misses no name, if this is not how it can fault. -/
theorem Act.Keeps.nameFound {α : Type} {act : Act α} {d : Conduct} {answers : α → Store → Prop}
    (h : act.Keeps d s answers) (hfault : ∀ fault, d.fault s fault → fault ≠ .nameNotRegistered)
    (hstill : act.Only Unmoved) :
    act.Ends s (fun a t => (d.change s t ∧ answers a t) ∧ s.Unmoved t)
      (SsaDebugInfo.nameFound s.Unmoved) :=
  (h.ends.and (hstill.ends s)).mono (fun _ _ ht => ht) fun fault _ hf =>
    ⟨hfault fault hf.1.2, hf.2⟩

section Function

variable {r : Store} {o : Value} {site : Site}

/-- A value that forgets its function takes no name along but its own. -/
theorem forget_transfers (ho : r.get? v = some o) (hsite : o.site? = some site)
    (hextends : s.Extends r) (hseats : ∀ w, r.seat? w = s.seat? w)
    (hkeeps : ∀ f name, name ∈ (s.registry f).names → s.seat? v ≠ some (f, name) →
      name ∈ (r.registry f).names) :
    s.Transfers v none (r.modify v (·.mapSite fun site => { site with function := none })) := by
  have hnaming := naming_modify_value ho (·.mapSite fun site => { site with function := none })
  rw [Value.seat?_mapSite, hsite] at hnaming
  have hseat : ∀ w, (r.modify v (·.mapSite fun site => { site with function := none })).seat? w =
      if w = v then none else r.seat? w := congrFun (congrArg Naming.seat hnaming)
  refine ⟨hextends.trans (.modify v _), fun w hw => ?_, ⟨"", ?_, nofun⟩, fun e name hname h => ?_⟩
  · rw [hseat, if_neg hw, hseats]
  · rw [hseat, if_pos rfl]
    rfl
  · rw [registry_modify_value]
    exact hkeeps e name hname (h.resolve_left nofun)

/-- The second half of `setFunction`: the value gets to know its function, which gives it a name.
The name that it had has been released before. -/
theorem enterFunction_transfers (ho : r.get? v = some o) (hsite : o.site? = some site)
    (hg : ∀ f, g = some f → r.Has (.function f))
    (hextends : s.Extends r) (hseats : ∀ w, r.seat? w = s.seat? w)
    (hkeeps : ∀ f name, name ∈ (s.registry f).names → g = some f ∨ s.seat? v ≠ some (f, name) →
      name ∈ (r.registry f).names) :
    (do
      update v (·.mapSite fun site => { site with function := g })
      if let some new := g then
        let name ← registerName new site.name
        update v (·.mapSite fun site => { site with name }) : Act Unit).Ends r
          (fun _ t => s.Transfers v g t) fun _ _ => False := by
  refine ends_update_bind ?_
  cases g with
  | none =>
    exact ends_pure (forget_transfers ho hsite hextends hseats fun f name hname h =>
      hkeeps f name hname (.inr h))
  | some f =>
    obtain ⟨p, hp⟩ := Option.isSome_iff_exists.mp ((has_ref f).mp (hg f rfl))
    -- the states on the way: the function is known, the name is registered, the name is written
    let name := p.freshName site.name
    let linked := r.modify v (·.mapSite fun site => { site with function := some f })
    let registered := linked.modify f (·.register site.name)
    have hp' : linked.get? f = some p := by rwa [get?_modify_value]
    have hregister : (registerName f site.name).Ends linked
        (fun given t => given = name ∧ t = registered) fun _ _ => False :=
      ends_fetch_bind hp' ⟨rfl, rfl⟩
    refine hregister.bind ?_
    rintro _ _ ⟨rfl, rfl⟩
    let last := registered.modify v (·.mapSite fun site => { site with name })
    refine ends_update (?_ : s.Transfers v (some f) last)
    have ho' : registered.get? v =
        some (o.mapSite fun site => { site with function := some f }) := by
      rw [get?_modify_function, get?_modify_self, ho]
      rfl
    -- what the value is called in between is overwritten
    have hnaming : last.naming = (r.naming.setRegistry f (p.register site.name).registry).setSeat v
        (some (f, name)) := by
      rw [naming_modify_value ho', naming_modify_function hp', naming_modify_value ho,
        Value.seat?_mapSite, Value.seat?_mapSite, Value.site?_mapSite, hsite]
      exact Naming.setSeat_setSeat (n := r.naming.setRegistry f _) _ _
    have hseat : ∀ w, last.seat? w =
        if w = v then some (f, name) else r.seat? w :=
      congrFun (congrArg Naming.seat hnaming)
    have hregistry : ∀ e, last.registry e =
        if e = f then (p.register site.name).registry else r.registry e :=
      congrFun (congrArg Naming.registry hnaming)
    have hnames : (r.registry f).names = p.names := congrArg Registry.names (registry_eq hp)
    refine ⟨?_, fun w hw => ?_, ⟨name, ?_, ?_⟩, fun e kept hkept h => ?_⟩
    · exact ((hextends.trans (.modify v _)).trans (.modify f _)).trans (.modify v _)
    · rw [hseat, if_neg hw, hseats]
    · rw [hseat, if_pos rfl]
      rfl
    · rintro _ ⟨⟩
      rw [hregistry, if_pos rfl]
      exact Function.mem_names_register.mpr (.inr rfl)
    · have hkept := hkeeps e kept hkept h
      rw [hregistry]
      split
      · next he =>
        subst he
        exact Function.mem_names_register.mpr (.inl (hnames ▸ hkept))
      · exact hkept

/-- Where names are registered, a value may change its function. -/
theorem setFunction_transfers (hs : s.Registered) (hg : ∀ f, g = some f → s.Has (.function f)) :
    (setFunction v g).Ends s (fun _ t => s.Transfers v g t) (nameFound (· = s)) := by
  refine Reads.bind_plain reads_fetch (fun _ => nameFound.plain rfl) fun o ho => ?_
  split
  · exact ends_throw (nameFound.plain rfl rfl)
  · next site hsite =>
    have hseat : s.seat? v = site.function.map (·, site.name) := by
      rw [seat?_eq ho, Value.seat?, hsite, Option.bind_some]
    split
    · next hchanges =>
      dsimp only
      split
      · next old hold =>
        rw [hold] at hseat
        have hrelease : (releaseName old site.name).Ends s
            (fun _ t => t = s.modify old (·.unregister site.name)) fun _ _ => False := by
          unfold Ends
          rw [run_releaseName (hs v old site.name hseat)]
        refine hrelease.sure.bind ?_
        rintro _ _ rfl
        refine (enterFunction_transfers (by rwa [get?_modify_function]) hsite
          (fun f hf => has_modify.mpr (hg f hf)) (.modify old _)
          (fun w => seat?_modify_function w) fun e name hname h => ?_).sure
        obtain ⟨p, hp⟩ : ∃ p, s.get? old = some p := by
          have hname' := hs v old site.name hseat
          cases hp : s.get? old with
          | some p => exact ⟨p, rfl⟩
          | none =>
            rw [registry, hp] at hname'
            cases hname'
        have hregistry : (s.modify old (·.unregister site.name)).registry e =
            if e = old then (p.unregister site.name).registry else s.registry e :=
          congrFun (congrArg Naming.registry (naming_modify_function hp _)) e
        rw [hregistry]
        split
        · next he =>
          -- the name that goes is that of the value, which is not in the new function
          subst he
          rw [registry_eq hp] at hname
          have hne : name ≠ site.name := by
            rintro rfl
            rcases h with rfl | h
            · exact hchanges hold
            · exact h hseat
          exact (List.mem_erase_of_ne hne).mpr hname
        · exact hname
      · exact (enterFunction_transfers ho hsite hg (.refl s) (fun _ => rfl)
          fun _ _ hname _ => hname).sure
    · next hsame =>
      obtain rfl : site.function = g := not_not.mp hsame
      refine ends_pure ⟨.refl s, fun _ _ => rfl, ⟨site.name, hseat, fun f hf => ?_⟩,
        fun _ _ hname _ => hname⟩
      exact hs v f site.name (hseat.trans (congrArg (Option.map (·, site.name)) hf))

end Function

/-! ## Placements -/

/-- An instruction gets another block, and the function of that. -/
theorem setBlock_transfers (hs : s.Registered) {b : Option ValueId}
    (hb : ∀ f, b.bind s.functionOf? = some f → s.Has (.function f)) :
    (setBlock x b).Ends s (fun _ t => s.Transfers x (b.bind s.functionOf?) t)
      (nameFound fun t => t.naming = s.naming) := by
  let linked := s.modify x (·.mapInstruction fun i => { i with block := b })
  have hsame : linked.naming = s.naming := naming_modify_same fun o => o.site?_mapInstruction _
  have henter : ∀ g, (∀ f, g = some f → s.Has (.function f)) → (setFunction x g).Ends linked
      (fun _ t => s.Transfers x g t) (nameFound fun t => t.naming = s.naming) := by
    intro g hg
    refine (setFunction_transfers (hs.of_naming hsame) fun f hf => has_modify.mpr (hg f hf)).mono
      (fun _ t ht => ?_) fun _ _ => nameFound.mono fun ht => ht ▸ hsame
    have hseat : linked.seat? = s.seat? := congrArg Naming.seat hsame
    have hregistry : linked.registry = s.registry := congrArg Naming.registry hsame
    exact ⟨(Extends.modify x _).trans ht.toExtends, hseat ▸ ht.others, ht.seat,
      hseat ▸ hregistry ▸ ht.keeps⟩
  refine ends_update_bind ?_
  cases b with
  | none => exact henter none nofun
  | some c =>
    refine Reads.bind_plain reads_fetch
      (fun _ => nameFound.plain (P := fun t => t.naming = s.naming) hsame) fun p hp => ?_
    have hpfunction : p.function? = s.functionOf? c := by
      rw [← functionOf?_modify (fun o =>
        o.site?_mapInstruction fun i => { i with block := some c }), functionOf?, hp]
      rfl
    rw [hpfunction]
    exact henter _ hb

/-- What is taken out of a block is in no function then. -/
theorem detach_transfers (hs : s.Registered) (slot : Slot) :
    (detach slot).Ends s (fun _ t => ∃ v, s.Transfers v none t)
      (nameFound fun t => t.naming = s.naming) := by
  have hplain : ∀ fault : Fault, fault.isBookkeeping = false →
      nameFound (fun t => t.naming = s.naming) fault s :=
    fun _ => nameFound.plain (P := fun t => t.naming = s.naming) rfl
  refine Reads.bind_plain reads_valueIn hplain fun v _ => ?_
  refine Reads.bind_plain reads_fetch hplain fun o ho => ?_
  split
  · exact (setBlock_transfers (b := none) hs nofun).mono (fun _ t ht => ⟨v, ht⟩) fun _ _ hf => hf
  · split
    · next hsome =>
      obtain ⟨site, hsite⟩ := Option.isSome_iff_exists.mp hsome
      exact ends_update ⟨v, forget_transfers ho hsite (.refl s) (fun _ => rfl)
        fun _ _ hname _ => hname⟩
    · exact ends_throw (hplain _ rfl)

/-- Taking an instruction out of a block leaves values enrolled. -/
theorem removeFrom_enrolled (hs : s.Enrolled none) (c : ValueId) (slot : Slot) :
    (removeFrom c slot).Ends s (fun _ t => t.Enrolled none) (nameFound (Enrolled none)) := by
  refine Reads.bind_plain reads_fetch (fun _ => nameFound.plain hs) fun _ _ => ?_
  refine Reads.bind_plain reads_require (fun _ => nameFound.plain hs) fun _ _ => ?_
  refine ((detach_transfers hs.registered slot).mono (fun _ _ ht => ht)
    fun _ _ => nameFound.mono hs.of_naming).bind fun _ t ⟨v, ht⟩ => ?_
  exact ends_update ((hs.transfers ht).of_naming
    (naming_modify_same fun o => o.site?_mapInstructions _))

/-- The old arguments of a function leave, then the new ones enter. -/
theorem setArguments_enrolled (hs : s.Enrolled none) (hf : s.Has (.function f))
    (arguments : List Slot) :
    (setArguments f arguments).Ends s (fun _ t => t.Enrolled (some f)) (nameFound Registered) := by
  refine Reads.bind_plain reads_fetch (fun _ => nameFound.plain hs.registered) fun o _ => ?_
  refine (ends_forM (fun _ t => t.Enrolled none ∧ s.Extends t) ⟨hs, .refl s⟩ ?_).bind
    fun _ t ⟨ht, hst⟩ => ends_update_bind ?_
  · rintro _ slot _ _ t ⟨ht, hst⟩
    refine Reads.bind_plain reads_valueIn (fun _ => nameFound.plain ht.registered) fun v _ => ?_
    exact (setFunction_transfers (g := none) ht.registered nofun).mono
      (fun _ u hu => ⟨ht.transfers hu, hst.trans hu.toExtends⟩)
      fun _ _ => nameFound.mono fun heq => heq ▸ ht.registered
  · -- from now on names may meet in this function, and nothing leaves it
    have hu : (t.modify f fun f => { f with arguments }).naming = t.naming :=
      naming_modify_function_same fun _ => rfl
    have hstart := ht.of_naming hu
    refine (ends_forM (fun _ q => q.Enrolled (some f) ∧ s.Extends q)
      ⟨⟨hstart.registered, hstart.apart.apart.but _⟩, hst.trans (.modify f _)⟩ ?_).mono
      (fun _ _ hq => hq.1) fun _ _ hf => hf
    rintro _ slot _ _ q ⟨hq, hsq⟩
    refine Reads.bind_plain reads_valueIn (fun _ => nameFound.plain hq.registered) fun v _ => ?_
    refine (setFunction_transfers hq.registered ?_).mono
      (fun _ u hu => ⟨hq.transfers hu, hsq.trans hu.toExtends⟩)
      fun _ _ => nameFound.mono fun heq => heq ▸ hq.registered
    rintro _ ⟨⟩
    exact hsq.has hf

/-- The old instructions of a block leave its function, then the new ones enter. -/
theorem setInstructions_enrolled (hs : s.Enrolled none) (hclosed : s.Closed) (c : ValueId)
    (insns : List Slot) :
    (setInstructions c insns).Ends s (fun _ t => t.Registered) (nameFound Registered) := by
  refine Reads.bind_plain reads_fetch (fun _ => nameFound.plain hs.registered) fun o _ => ?_
  -- the block may forget its function when its old instructions leave
  refine (ends_forM (fun _ t => t.Enrolled none ∧ ∀ f, t.functionOf? c = some f →
    t.Has (.function f)) ⟨hs, fun f hf => hclosed.has_function hf⟩ ?_).bind
      fun _ t ⟨ht, hhas⟩ => ends_update_bind ?_
  · rintro _ slot _ _ t ⟨ht, hhas⟩
    refine (detach_transfers ht.registered slot).mono (fun _ u ⟨v, hu⟩ => ⟨ht.transfers hu,
      fun f hf => ?_⟩) fun _ _ => nameFound.mono ht.registered.of_naming
    rcases hu.functionOf? c with hsame | hnone
    · exact hu.has (hhas f (hsame ▸ hf))
    · rw [hnone] at hf
      cases hf
  · have hsame : (t.modify c (·.mapInstructions fun _ => insns)).naming = t.naming :=
      naming_modify_same fun o => o.site?_mapInstructions _
    have hlist : (t.modify c (·.mapInstructions fun _ => insns)).functionOf? c = t.functionOf? c :=
      functionOf?_modify (fun o => o.site?_mapInstructions _) c
    have hstart := ht.of_naming hsame
    refine (ends_forM (fun _ q => q.Enrolled (t.functionOf? c) ∧
      q.functionOf? c = t.functionOf? c ∧ ∀ f, t.functionOf? c = some f → q.Has (.function f))
      ⟨⟨hstart.registered, hstart.apart.apart.but _⟩, hlist,
        fun f hf => has_modify.mpr (hhas f hf)⟩ ?_).mono
      (fun _ _ hq => hq.1.registered) fun _ _ hf => hf
    rintro _ slot _ _ q ⟨hq, hfunction, hhas⟩
    refine Reads.bind_plain reads_instructionIn (fun _ => nameFound.plain hq.registered)
      fun x _ => ?_
    refine (setBlock_transfers (b := some c) hq.registered fun f hf => hhas f (hfunction ▸ hf)).mono
      (fun _ u hu => ?_) fun _ _ => nameFound.mono hq.registered.of_naming
    rw [Option.bind_some, hfunction] at hu
    refine ⟨hq.transfers hu, ?_, fun f hf => hu.has (hhas f hf)⟩
    exact (hu.functionOf? c).elim (·.trans hfunction) id

/-- What is placed is an instruction that is in no function. -/
def Placement.isLoose (s : Store) : Placement → Bool
  | append _ x | insertBefore _ x _ | insertAfter _ x _ => (s.functionOf? x).isNone
  | _ => false

/-- Values of one function have different names where something leaves a function, and nothing with
a name in a function gets another name. -/
def Rule.apart : Rule where
  place s placement := decide s.Apart || placement.isLoose s
  move s x _ := decide s.Apart || (s.functionOf? x).isNone
  arguments s _ := decide s.Apart
  instructions s _ := decide s.Apart
  rename s v := (s.siteOf? v).isNone
  lost _ := false

/-- An instruction that enters the function of a block finds its name where it was, and so does all
else; the list of the block may change then. -/
theorem linkTo_registered (hs : s.Registered) (hclosed : s.Closed)
    (halone : s.Apart ∨ s.functionOf? x = none) :
    (setBlock x (some c)).Ends s
      (fun _ t => t.Registered ∧
        ∀ h : List Slot → List Slot, (t.modify c (·.mapInstructions h)).Registered)
      (nameFound Registered) := by
  refine (setBlock_transfers (b := some c) hs fun f hf => hclosed.has_function hf).mono
    (fun _ t ht => ?_) fun _ _ => nameFound.mono hs.of_naming
  have hregistered : t.Registered := by
    refine ht.registered hs fun w f name hx hw => .inr ?_
    rcases halone with hapart | hnone
    · exact hapart x w (f, name) hx hw
    · cases hnone.symm.trans (functionOf?_of_seat? hx)
  exact ⟨hregistered, fun h => hregistered.of_naming
    (naming_modify_same fun o => o.site?_mapInstructions _)⟩

/-- Placing an instruction behind another finds the names that it releases. -/
theorem insertAfter_registered (hs : s.Registered) (hclosed : s.Closed)
    (halone : s.Apart ∨ s.functionOf? x = none) (anchor : Slot) :
    (insertAfter c x anchor).Ends s (fun _ t => t.Registered) (nameFound Registered) :=
  (linkTo_registered hs hclosed halone).bind fun _ _ ht =>
    Reads.bind_plain reads_indexIn (fun _ => nameFound.plain ht.1) fun _ _ => ends_update (ht.2 _)

/-- Where names are registered and values told apart, placing does not miss a name, and leaves names
registered. -/
theorem Store.Registered.ends_place (hs : s.Registered) (hclosed : s.Closed) (placement : Placement)
    (hneeds : ∀ slot ∈ placement.needs, s.HasIn slot) (h : Rule.apart.place s placement = true) :
    placement.act.Ends s (fun _ t => t.Registered) (nameFound Registered) := by
  have hallowed : s.Apart ∨ placement.isLoose s = true := by
    rw [← decide_eq_true_iff (p := s.Apart)]
    exact Bool.or_eq_true_iff.mp h
  have hloose : ∀ x, placement.isLoose s = (s.functionOf? x).isNone →
      s.Apart ∨ s.functionOf? x = none := fun x hx =>
    hallowed.imp_right fun h => Option.isNone_iff_eq_none.mp (hx ▸ h)
  have hentered : placement.isLoose s = false → s.Enrolled none := fun h =>
    ⟨hs, (hallowed.resolve_right (by simp [h])).but none⟩
  cases placement with
  | setArguments f arguments =>
    exact (setArguments_enrolled (hentered rfl)
      (hasIn_some.mp (List.forall_mem_cons.mp hneeds).1) arguments).mono
        (fun _ _ ht => ht.registered) fun _ _ hf => hf
  | addBlock f b =>
    have hf := hasIn_some.mp (List.forall_mem_cons.mp hneeds).1
    refine ((setFunction_transfers hs ?_).mono (fun _ _ ht => ht)
      fun _ _ => nameFound.mono fun heq => heq ▸ hs).bind fun _ t ht => ends_update ?_
    · rintro _ ⟨⟩
      exact hf
    · refine (ht.registered hs fun w f name hv hw => ?_).of_naming
        (naming_modify_function_same fun _ => rfl)
      exact .inr ((hentered rfl).apart.apart b w (f, name) hv hw)
  | append b x =>
    exact (linkTo_registered hs hclosed (hloose x rfl)).bind fun _ t ht => ends_update (ht.2 _)
  | insertBefore b x anchor =>
    exact (linkTo_registered hs hclosed (hloose x rfl)).bind fun _ t ht =>
      Reads.bind_plain reads_indexIn (fun _ => nameFound.plain ht.1) fun place _ =>
        ends_update (ht.2 _)
  | insertAfter b x anchor => exact insertAfter_registered hs hclosed (hloose x rfl) anchor
  | remove b slot =>
    exact (removeFrom_enrolled (hentered rfl) b slot).mono (fun _ _ ht => ht.registered)
      fun _ _ => nameFound.mono Enrolled.registered
  | setInstructions b insns =>
    exact setInstructions_enrolled (hentered rfl) hclosed b insns

/-- So does placing it behind another one in whichever block. -/
theorem placeAfter_registered (hs : s.Registered) (hclosed : s.Closed)
    (halone : s.Apart ∨ s.functionOf? x = none) (after : Slot) :
    (placeAfter x after).Ends s (fun _ t => t.Registered) (nameFound Registered) := by
  refine ends_get_bind (Reads.bind_plain reads_require (fun _ => nameFound.plain hs) fun _ _ => ?_)
  refine Reads.bind_plain reads_instructionIn (fun _ => nameFound.plain hs) fun target _ => ?_
  refine ends_get_bind ?_
  split
  · exact ends_throw (nameFound.plain hs rfl)
  · exact insertAfter_registered hs hclosed halone after

/-- Taking an instruction out of where it is leaves values enrolled. -/
theorem removeFromParent_enrolled (hs : s.Enrolled none) (x : ValueId) :
    (removeFromParent x).Ends s (fun _ t => t.Enrolled none) (nameFound (Enrolled none)) := by
  refine ends_get_bind ?_
  split
  · exact removeFrom_enrolled hs _ _
  · exact ends_pure hs

/-- What is erased leaves its block first; then nothing moves. -/
theorem erase_registered (hs : s.Enrolled none) (hx : s.formOf? x = some .instruction) :
    (erase x).Ends s (fun _ t => t.Registered) (nameFound Registered) := by
  have hleaves := (removeFromParent_enrolled hs x).also
    ((places_sameForms.removeFromParent x).ends s)
  refine (hleaves.mono (fun _ _ ht => ht) fun _ _ => nameFound.mono Enrolled.registered).bind
    fun _ t ⟨ht, hforms⟩ => ?_
  have hdrop : (dropReferences x).Keeps (.reuses x fun _ => True) t fun _ _ => True :=
    keeps_setOperands (has_of_formOf? ((hforms x).trans hx)) nofun (fun _ _ => trivial) nofun
  refine ((hdrop.nameFound (fun _ h => h) (still_setOperands x [])).mono
    (fun _ _ hu => ht.registered.of_unmoved hu.2)
    fun _ _ => nameFound.mono ht.registered.of_unmoved).bind fun _ u hu => ends_get_bind ?_
  refine (Reads.ends reads_require).mono ?_ ?_
  · rintro _ _ ⟨rfl, _⟩
    exact hu
  · rintro _ _ ⟨rfl, hplain⟩
    exact nameFound.plain hu hplain

/-! ## Names in all that is made of placements -/

theorem registered_initial : Store.initial.Registered := by
  intro v f name hseat
  rw [Store.seat?, get?_initial v (by decide)] at hseat
  cases hseat

/-- What starts where values are told apart ends where names are registered. -/
theorem apart_yields :
    Rule.apart.Yields (fun s => (s.Sound ∧ s.Registered) ∧ s.Apart)
      fun s => s.Sound ∧ s.Registered where
  enough h := h.1
  sound h := h.1
  unmoved hs hst ht := ⟨ht, hs.2.of_unmoved hst⟩
  start_unmoved hs hst ht := ⟨⟨ht, hs.1.2.of_unmoved hst⟩, hs.2.of_naming hst.naming⟩
  place {s} hs p hneeds hallowed := by
    have hkeeps : p.act.Keeps (.edits {}) s fun _ _ => True := keeps_place p hs.1 hneeds
    exact ((hs.2.ends_place hs.1.closed p hneeds hallowed).and hkeeps.ends).mono
      (fun _ t ht => ⟨ht.2.1.sound hs.1, ht.1⟩) fun _ t ht _ => ⟨ht.2.1.sound hs.1, ht.1.2⟩
  removeFrom {s} hs b slot := by
    have hkeeps : (SsaDebugInfo.removeFrom b slot).Keeps (.edits {}) s fun _ _ => True :=
      keeps_place (.remove b slot) hs.1.1 fun _ h => nomatch h
    have hends := ((removeFrom_enrolled ⟨hs.1.2, hs.2.but none⟩ b slot).also
      ((places_sameForms.removeFrom b slot).ends s)).and hkeeps.ends
    refine hends.mono (fun _ t ⟨⟨ht, hforms⟩, hedited⟩ => ?_) fun _ t ht _ =>
      ⟨ht.2.1.sound hs.1.1, ht.1.2.registered⟩
    refine ⟨⟨⟨hedited.1.sound hs.1.1, ht.registered⟩, ht.apart.apart⟩,
      fun x form hx => (hforms x).trans hx, fun x target _ _ => ?_⟩
    exact Bool.or_eq_true_iff.mpr (.inl (decide_eq_true ht.apart.apart))
  rename {s v} hs hrename name {t} hst ht := by
    have hnone : s.siteOf? v = none := Option.isNone_iff_eq_none.mp hrename
    exact ⟨ht, hs.2.of_unmoved ((unmoved_rename hnone name).trans hst)⟩
  move := by
    intro s _ x target b _ _ _ hmove
    exact ⟨hmove, hmove⟩
  move_unmoved {s t x target} hst _ hmove := by
    refine Bool.or_eq_true_iff.mpr ((Bool.or_eq_true_iff.mp hmove).imp (fun h => ?_) fun h => ?_)
    · exact decide_eq_true ((of_decide_eq_true h).of_naming hst.naming)
    · rwa [hst.functionOf?]
  -- a value that is not in a function yet may go anywhere
  move_new {s x o} ho hsite target := by
    have hnone : s.functionOf? x = none := by
      rw [Store.functionOf?, ho, Option.bind_some, Value.function?, hsite]
      rfl
    exact Bool.or_eq_true_iff.mpr (.inr (Option.isNone_iff_eq_none.mpr hnone))
  arguments hst _ _ hallowed := Bool.or_eq_true_iff.mpr
    (.inl (decide_eq_true ((of_decide_eq_true hallowed).of_naming hst.naming)))
  instructions hst _ _ hallowed := Bool.or_eq_true_iff.mpr
    (.inl (decide_eq_true ((of_decide_eq_true hallowed).of_naming hst.naming)))

end SsaDebugInfo
