import SsaDebugInfo.Proofs.Store.Held

/-!
# What actions may do

A `Conduct` says how actions may change the store and which faults may arise on the way. An action
keeps to it from a store (`Act.Keeps`) if both what it leaves and how it faults are allowed there;
what its answer then satisfies is stated along with it. An action that only reads (`Act.Reads`)
keeps to any conduct.

- `Act.Keeps.bind`, `Act.Reads.bind`: actions in turn, the second from any store that the first may
  leave.
- `Act.keeps_forM`, `Act.reads_mapM`: actions over a list.
- `Act.Answers`: the action does not fault.
- `Act.run_fetch_bind`, `Act.run_valueIn_bind`: what goes on after something that is there is read.
- `Act.reads_…`: the questions that all operations are made of.
-/

namespace SsaDebugInfo

/-- Whether a fault tells of names or uses that are not kept in step. -/
def Fault.isBookkeeping : Fault → Bool
  | notAmongUses | nameNotRegistered => true
  | _ => false

/-- An answer or a fault that does not tell of names or uses out of step. -/
def Plain {α : Type} (result : Except Fault α) : Prop :=
  ∀ fault, result = .error fault → fault.isBookkeeping = false

theorem plain_ok {α : Type} (a : α) : Plain (.ok a) := fun _ h => nomatch h

theorem plain_error {α : Type} {fault : Fault} (h : fault.isBookkeeping = false) :
    Plain (.error fault : Except Fault α) := by
  rintro _ ⟨⟩
  exact h

theorem plain_found {α : Type} (a : Option α) : Plain (found a) := by
  cases a with
  | none => exact plain_error rfl
  | some a => exact plain_ok a

theorem found_eq_ok {α : Type} {o : Option α} {a : α} : found o = .ok a ↔ o = some a := by
  cases o <;> simp [found]

/-- Two steps in sequence answer exactly if both do. -/
theorem bind_eq_ok {α β : Type} {first : Except Fault α} {second : α → Except Fault β} {b : β} :
    (first >>= second) = .ok b ↔ ∃ a, first = .ok a ∧ second a = .ok b := by
  cases first <;> simp [bind, Except.bind]

/-- How actions may change the store, and which faults may arise from a store. Changes may follow
one another, and a fault that may arise after a change may arise from before it. -/
structure Conduct where
  change : Store → Store → Prop
  fault : Store → Fault → Prop
  refl : ∀ s, change s s
  trans : ∀ {s t u}, change s t → change t u → change s u
  fault_of_change : ∀ {s t f}, change s t → fault t f → fault s f
  plain : ∀ {s f}, f.isBookkeeping = false → fault s f

/-- Behaving in two ways at once. -/
def Conduct.and (c d : Conduct) : Conduct where
  change s t := c.change s t ∧ d.change s t
  fault s f := c.fault s f ∧ d.fault s f
  refl s := ⟨c.refl s, d.refl s⟩
  trans hst htu := ⟨c.trans hst.1 htu.1, d.trans hst.2 htu.2⟩
  fault_of_change hst hf := ⟨c.fault_of_change hst.1 hf.1, d.fault_of_change hst.2 hf.2⟩
  plain h := ⟨c.plain h, d.plain h⟩

namespace Act

variable {α β : Type} {c d : Conduct} {s : Store}

/-- The action leaves the store as it is, answers as described, and faults plainly. -/
def Reads (act : Act α) (s : Store) (answers : α → Prop) : Prop :=
  ∃ result, act.run s = (result, s) ∧ Plain result ∧ ∀ a, result = .ok a → answers a

/-- From the store the action changes and faults as the conduct allows, and answers as described. -/
def Keeps (c : Conduct) (act : Act α) (s : Store) (answers : α → Store → Prop) : Prop :=
  match act.run s with
  | (.ok a, t) => c.change s t ∧ answers a t
  | (.error f, t) => c.change s t ∧ c.fault s f

namespace Keeps

variable {act : Act α} {answers : α → Store → Prop}

/-- What is known of an action that has answered. -/
theorem ok (h : act.Keeps c s answers) {a : α} {t : Store} (hrun : act.run s = (.ok a, t)) :
    c.change s t ∧ answers a t := by
  unfold Keeps at h
  rwa [hrun] at h

/-- What is kept changes the store as the conduct says, whether the action answers or faults. -/
theorem change (h : act.Keeps c s answers) : c.change s (act.run s).2 := by
  unfold Keeps at h
  split at h
  · next heq => exact heq ▸ h.1
  · next heq => exact heq ▸ h.1

theorem answer (h : act.Keeps c s answers) {a : α} (ha : (act.run s).1 = .ok a) :
    answers a (act.run s).2 := by
  unfold Keeps at h
  split at h
  · next heq =>
    rw [heq] at ha ⊢
    cases ha
    exact h.2
  · next heq =>
    rw [heq] at ha
    cases ha

theorem fault (h : act.Keeps c s answers) {f : Fault} (hf : (act.run s).1 = .error f) :
    c.fault s f := by
  unfold Keeps at h
  split at h
  · next heq =>
    rw [heq] at hf
    cases hf
  · next heq =>
    rw [heq] at hf
    cases hf
    exact h.2

/-- What holds after an action may be weakened, with what the change tells. -/
theorem mono {answers' : α → Store → Prop} (h : act.Keeps c s answers)
    (himp : ∀ a t, c.change s t → answers a t → answers' a t) : act.Keeps c s answers' := by
  unfold Keeps at h ⊢
  split at h
  · exact ⟨h.1, himp _ _ h.1 h.2⟩
  · exact h

/-- What is answered may be left open. -/
theorem any (h : act.Keeps c s answers) : act.Keeps c s fun _ _ => True :=
  h.mono fun _ _ _ _ => trivial

/-- An action keeps to a conduct that allows more. -/
theorem weaken (h : act.Keeps c s answers) (hchange : ∀ t, c.change s t → d.change s t)
    (hfault : ∀ f, c.fault s f → d.fault s f) : act.Keeps d s answers := by
  unfold Keeps at h ⊢
  split at h
  · exact ⟨hchange _ h.1, h.2⟩
  · exact ⟨hchange _ h.1, hfault _ h.2⟩

/-- An action keeps to two conducts if it keeps to the first and its change and fault are allowed
by the second. -/
theorem and (h : act.Keeps c s answers) (hchange : d.change s (act.run s).2)
    (hfault : ∀ f, (act.run s).1 = .error f → d.fault s f) : act.Keeps (c.and d) s answers := by
  unfold Keeps at h ⊢
  split at h
  · next heq =>
    rw [heq] at hchange
    exact ⟨⟨h.1, hchange⟩, h.2⟩
  · next heq =>
    rw [heq] at hchange hfault
    exact ⟨⟨h.1, hchange⟩, h.2, hfault _ rfl⟩

/-- An action that is known to answer keeps to a conduct if the change is allowed. -/
theorem of_run {a : α} {t : Store} (hrun : act.run s = (.ok a, t)) (hchange : c.change s t)
    (h : answers a t) : act.Keeps c s answers := by
  unfold Keeps
  rw [hrun]
  exact ⟨hchange, h⟩

/-- Two actions in turn keep to a conduct if the first does and the second does from whatever the
first may leave. -/
theorem bind {second : α → Act β} {answers' : β → Store → Prop} (h : act.Keeps c s answers)
    (hnext : ∀ a t, c.change s t → answers a t → (second a).Keeps c t answers') :
    (act >>= second).Keeps c s answers' := by
  unfold Keeps at h ⊢
  rw [run_bind]
  cases hrun : act.run s with
  | mk result t =>
    rw [hrun] at h
    cases result with
    | ok a =>
      -- the second starts from `t`: its change follows the first, its faults are traced back
      have hsecond := hnext a t h.1 h.2
      unfold Keeps at hsecond
      dsimp only
      cases hrun' : (second a).run t with
      | mk result u =>
        rw [hrun'] at hsecond
        cases result with
        | ok b => exact ⟨c.trans h.1 hsecond.1, hsecond.2⟩
        | error f => exact ⟨c.trans h.1 hsecond.1, c.fault_of_change h.1 hsecond.2⟩
    | error f => exact h

end Keeps

namespace Reads

variable {act : Act α} {answers : α → Prop}

theorem mono {answers' : α → Prop} (h : act.Reads s answers) (himp : ∀ a, answers a → answers' a) :
    act.Reads s answers' := by
  obtain ⟨result, hrun, hplain, hanswers⟩ := h
  exact ⟨result, hrun, hplain, fun a ha => himp a (hanswers a ha)⟩

/-- What only reads keeps to any conduct. -/
theorem keeps (h : act.Reads s answers) : act.Keeps c s fun a t => t = s ∧ answers a := by
  obtain ⟨result, hrun, hplain, hanswers⟩ := h
  unfold Keeps
  rw [hrun]
  cases result with
  | ok a => exact ⟨c.refl s, rfl, hanswers a rfl⟩
  | error f => exact ⟨c.refl s, c.plain (hplain f rfl)⟩

/-- A question first: the rest starts from the same store. -/
theorem bind {second : α → Act β} {answers' : β → Store → Prop} (h : act.Reads s answers)
    (hnext : ∀ a, answers a → (second a).Keeps c s answers') :
    (act >>= second).Keeps c s answers' :=
  h.keeps.bind fun a _ _ hat => by
    obtain ⟨rfl, ha⟩ := hat
    exact hnext a ha

/-- Reading, and then reading on from what has been found. -/
theorem bind_reads {second : α → Act β} {answers' : β → Prop} (h : act.Reads s answers)
    (hnext : ∀ a, answers a → (second a).Reads s answers') : (act >>= second).Reads s answers' := by
  obtain ⟨result, hrun, hplain, hanswers⟩ := h
  cases result with
  | ok a =>
    obtain ⟨result', hrun', hplain', hanswers'⟩ := hnext a (hanswers a rfl)
    exact ⟨result', by rw [run_bind, hrun]; exact hrun', hplain', hanswers'⟩
  | error f =>
    refine ⟨.error f, by rw [run_bind, hrun], plain_error (hplain f rfl), fun _ h => nomatch h⟩

theorem bind_pure {g : α → β} {answers' : β → Prop} (h : act.Reads s answers)
    (hnext : ∀ a, answers a → answers' (g a)) : (act >>= fun a => pure (g a)).Reads s answers' :=
  h.bind_reads fun a ha => ⟨.ok (g a), rfl, plain_ok _, by rintro _ ⟨⟩; exact hnext a ha⟩

end Reads

/-! ## Actions that answer -/

/-- An action that answers, by its answer and the store that it leaves. -/
theorem run_eq_ok {act : Act α} {a : α} (h : (act.run s).1 = .ok a) :
    act.run s = (.ok a, (act.run s).2) :=
  Prod.ext h rfl

/-- An action that faults, by its fault and the store that it leaves. -/
theorem run_eq_error {act : Act α} {f : Fault} (h : (act.run s).1 = .error f) :
    act.run s = (.error f, (act.run s).2) :=
  Prod.ext h rfl

/-- Of two actions in turn that answer, both do. -/
theorem run_bind_ok {act : Act α} {second : α → Act β} {b : β} {u : Store}
    (h : (act >>= second).run s = (.ok b, u)) :
    ∃ a t, act.run s = (.ok a, t) ∧ (second a).run t = (.ok b, u) := by
  rw [run_bind] at h
  split at h
  · next a t hact => exact ⟨a, t, hact, h⟩
  · cases h

/-- What depends on the store looks at the one that it starts from. -/
theorem run_get_bind (second : Store → Act α) (s : Store) :
    (get >>= second).run s = (second s).run s :=
  rfl

/-- What is fetched is there, and the rest goes on with it. -/
theorem run_fetch_bind {kind : Kind} {id : Id kind} {o : Object kind} (h : s.get? id = some o)
    (second : Object kind → Act α) : (fetch id >>= second).run s = (second o).run s := by
  rw [run_bind, run_fetch, h]
  rfl

/-- The slot of a value which is there is read as that value, and the rest goes on with it. -/
theorem run_valueIn_bind {id : ValueId} (h : s.Has (.value id)) (second : ValueId → Act α) :
    (valueIn (.ofValue id) >>= second).run s = (second id).run s := by
  obtain ⟨v, hv⟩ := Store.has_value_iff.mp h
  have hin : s.valueIn? (.ofValue id) = some (id, v) := Store.valueIn?_eq_some.mpr ⟨rfl, hv⟩
  rw [run_bind, valueIn, run_ask, hin]
  rfl

/-- The action answers, rather than faulting. -/
def Answers (act : Act α) (s : Store) : Prop :=
  ∃ a t, act.run s = (.ok a, t)

theorem answers_pure (a : α) : (pure a : Act α).Answers s := ⟨a, s, rfl⟩

theorem answers_update {kind : Kind} {id : Id kind} {f : Object kind → Object kind} :
    (update id f).Answers s := ⟨(), _, rfl⟩

/-- Two actions in sequence answer if the first one does and the second one does whatever the first
one leaves. -/
theorem Answers.bind {act : Act α} {second : α → Act β} (h : act.Answers s)
    (hnext : ∀ a t, act.run s = (.ok a, t) → (second a).Answers t) :
    (act >>= second).Answers s := by
  obtain ⟨a, t, hrun⟩ := h
  obtain ⟨b, u, hrun'⟩ := hnext a t hrun
  exact ⟨b, u, by rw [run_bind, hrun]; exact hrun'⟩

/-- An object that is there is fetched. -/
theorem answers_fetch_bind {kind : Kind} {id : Id kind} (h : s.Has id.ref)
    {second : Object kind → Act β} (hnext : ∀ o, s.get? id = some o → (second o).Answers s) :
    (fetch id >>= second).Answers s := by
  obtain ⟨o, ho⟩ := Option.isSome_iff_exists.mp ((Store.has_ref id).mp h)
  rw [Answers, run_fetch_bind ho]
  exact hnext o ho

/-! ## The basic actions -/

theorem keeps_pure {a : α} {answers : α → Store → Prop} (h : answers a s) :
    (pure a : Act α).Keeps c s answers :=
  ⟨c.refl s, h⟩

/-- A fault that a program may run into changes nothing. -/
theorem keeps_throw {f : Fault} {answers : α → Store → Prop} (h : f.isBookkeeping = false) :
    (throw f : Act α).Keeps c s answers :=
  ⟨c.refl s, c.plain h⟩

theorem keeps_modify {f : Store → Store} (h : c.change s (f s)) :
    (modify f : Act Unit).Keeps c s fun _ t => t = f s :=
  ⟨h, rfl⟩

/-- A change of one object is kept if the conduct allows it. -/
theorem keeps_update {kind : Kind} {id : Id kind} {f : Object kind → Object kind}
    (h : c.change s (s.modify id f)) : (update id f).Keeps c s fun _ t => t = s.modify id f :=
  ⟨h, rfl⟩

/-- A new object is kept if the conduct allows it, and its identifier is the next one. -/
theorem keeps_create {kind : Kind} {object : Object kind} (h : c.change s (s.push kind object)) :
    (create kind object).Keeps c s fun id t => id = s.nextId kind ∧ t = s.push kind object :=
  ⟨h, rfl, rfl⟩

/-- Actions over a list keep to a conduct if each does from whatever those before it may leave. -/
theorem keeps_forM {f : α → Act Unit} {l : List α}
    (h : ∀ a ∈ l, ∀ t, c.change s t → (f a).Keeps c t fun _ _ => True) :
    (l.forM f).Keeps c s fun _ _ => True := by
  induction l generalizing s with
  | nil => exact keeps_pure trivial
  | cons a rest ih =>
    -- the rest starts from a store that the first element may have changed
    show (f a >>= fun _ => rest.forM f).Keeps c s fun _ _ => True
    refine (h a List.mem_cons_self s (c.refl s)).bind fun _ t ht _ => ?_
    exact ih fun b hb u hu => h b (List.mem_cons_of_mem _ hb) u (c.trans ht hu)

/-! ## Questions -/

theorem reads_pure {a : α} {answers : α → Prop} (h : answers a) :
    (pure a : Act α).Reads s answers :=
  ⟨.ok a, rfl, plain_ok a, by rintro _ ⟨⟩; exact h⟩

theorem reads_throw {f : Fault} {answers : α → Prop} (h : f.isBookkeeping = false) :
    (throw f : Act α).Reads s answers :=
  ⟨.error f, rfl, plain_error h, fun _ h => nomatch h⟩

theorem reads_get : (get : Act Store).Reads s (· = s) :=
  ⟨.ok s, rfl, plain_ok s, by rintro _ ⟨⟩; rfl⟩

/-- A result that is no fault of bookkeeping is read as it is. -/
theorem reads_ofExcept {result : Except Fault α} (h : Plain result) :
    (MonadExcept.ofExcept result : Act α).Reads s fun a => result = .ok a := by
  cases result with
  | ok a => exact reads_pure rfl
  | error f => exact reads_throw (h f rfl)

/-- A question is answered as the store answers it. -/
theorem reads_ask {question : Store → Except Fault α} (h : Plain (question s)) :
    (ask question).Reads s fun a => question s = .ok a :=
  ⟨question s, run_ask question s, h, fun _ ha => ha⟩

theorem reads_require {holds : Bool} : (require holds).Reads s fun _ => holds = true := by
  cases holds with
  | true => exact reads_pure rfl
  | false => exact reads_throw rfl

theorem reads_fetch {kind : Kind} {id : Id kind} :
    (fetch id).Reads s fun o => s.get? id = some o :=
  ⟨found (s.get? id), run_fetch id s, plain_found _, fun _ ha => found_eq_ok.mp ha⟩

/-- What is read of each entry of a list holds of all that is read of the list. -/
theorem reads_mapM {f : α → Act β} {P : β → Prop} {l : List α}
    (h : ∀ a ∈ l, (f a).Reads s P) : (l.mapM f).Reads s fun bs => ∀ b ∈ bs, P b := by
  induction l with
  | nil => exact reads_pure fun _ hb => nomatch hb
  | cons a rest ih =>
    rw [List.mapM_cons]
    refine (h a List.mem_cons_self).bind_reads fun b hb => ?_
    refine (ih fun a' ha' => h a' (List.mem_cons_of_mem _ ha')).bind_pure fun bs hbs => ?_
    exact List.forall_mem_cons.mpr ⟨hb, hbs⟩

/-- The value in a slot is there. -/
theorem reads_valueIn {slot : Slot} :
    (valueIn slot).Reads s fun id => slot = .ofValue id ∧ ∃ v, s.get? id = some v := by
  refine (reads_ask (plain_found _)).mono fun id h => ?_
  obtain ⟨⟨_, v⟩, hin, rfl⟩ := Option.map_eq_some_iff.mp (found_eq_ok.mp h)
  obtain ⟨rfl, hv⟩ := Store.valueIn?_eq_some.mp hin
  exact ⟨rfl, v, hv⟩

/-- Only a block is taken for one. -/
theorem reads_blockIn {slot : Slot} :
    (blockIn slot).Reads s fun id =>
      slot = .ofValue id ∧ ∃ v, s.get? id = some v ∧ v.isBlock = true :=
  (reads_ask (plain_found _)).mono fun _ h => Store.blockIn?_eq_some.mp (found_eq_ok.mp h)

/-- Only an instruction is taken for one. -/
theorem reads_instructionIn {slot : Slot} :
    (instructionIn slot).Reads s fun id =>
      slot = .ofValue id ∧ ∃ v i, s.get? id = some v ∧ v.instruction? = some i := by
  refine (reads_ask (plain_found _)).mono fun id h => ?_
  obtain ⟨⟨_, i⟩, hin, rfl⟩ := Option.map_eq_some_iff.mp (found_eq_ok.mp h)
  obtain ⟨rfl, v, hv, hi⟩ := Store.instructionIn?_eq_some.mp hin
  exact ⟨rfl, v, i, hv, hi⟩

/-- What an assertion lets pass as an instruction is one. -/
theorem reads_requireInstruction {slot : Slot} :
    (requireInstruction slot).Reads s fun id =>
      slot = .ofValue id ∧ ∃ v i, s.get? id = some v ∧ v.instruction? = some i := by
  refine reads_get.bind_reads ?_
  rintro _ rfl
  split
  · next id i h =>
    obtain ⟨rfl, v, hv, hi⟩ := Store.instructionIn?_eq_some.mp h
    exact reads_pure ⟨rfl, v, i, hv, hi⟩
  · exact reads_throw rfl

theorem reads_idIn {kind : Kind} {slot : Slot} :
    (idIn kind slot).Reads s fun id => slot = some id.ref :=
  (reads_ask (plain_found _)).mono fun _ h => Slot.id?_eq_some_iff.mp (found_eq_ok.mp h)

theorem reads_typeIn {slot : Slot} : (typeIn slot).Reads s fun _ => True := by
  unfold typeIn
  split
  · exact reads_fetch.bind_pure fun _ _ => trivial
  · refine reads_valueIn.bind_reads fun id _ => ?_
    exact reads_fetch.bind_pure fun _ _ => trivial

/-- What is read of something that may be missing holds if it is there. -/
theorem reads_optionally {get : Slot → Act α} {answers : α → Prop} {slot : Slot}
    (h : (get slot).Reads s answers) :
    (optionally get slot).Reads s fun o => ∀ a, o = some a → answers a := by
  cases slot with
  | none => exact reads_pure fun _ h => nomatch h
  | some ref => exact h.bind_pure fun a ha => by rintro _ ⟨⟩; exact ha

end Act

end SsaDebugInfo
