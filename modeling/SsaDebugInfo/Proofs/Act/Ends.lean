import Mathlib.Order.RelClasses
import SsaDebugInfo.Proofs.Act.Conduct

/-!
# How actions end

An action answers or faults, and what can be said of the store that it leaves may differ
(`Act.Ends`). Where it does not matter how an action ends, nor where it starts, it is enough to say
how it changes the store (`Act.Only`).

- `Act.Ends.bind`, `Act.Reads.bind_ends`: actions in turn.
- `Act.ends_forM`: actions over a list, with what holds after each part of the list.
- `Act.Only.bind`, `Act.only_forM`, `Act.only_mapM`: the same for actions that change the store in
  one way only.
-/

namespace SsaDebugInfo

namespace Act

variable {α β : Type} {s t : Store}

/-- From the store the action answers, or faults, as described. -/
def Ends (act : Act α) (s : Store) (answers : α → Store → Prop) (faults : Fault → Store → Prop) :
    Prop :=
  match act.run s with
  | (.ok a, t) => answers a t
  | (.error f, t) => faults f t

variable {act : Act α} {second : α → Act β} {answers answers' : α → Store → Prop}
  {nexts : β → Store → Prop} {faults faults' : Fault → Store → Prop}

namespace Ends

/-- How an action ends, once it has answered. -/
theorem ok (h : act.Ends s answers faults) {a : α} (hrun : act.run s = (.ok a, t)) :
    answers a t := by
  unfold Ends at h
  rwa [hrun] at h

/-- How an action ends, once it has faulted. -/
theorem error (h : act.Ends s answers faults) {f : Fault} (hrun : act.run s = (.error f, t)) :
    faults f t := by
  unfold Ends at h
  rwa [hrun] at h

/-- An action ends as it runs. -/
theorem run (act : Act α) (s : Store) :
    act.Ends s (fun a t => act.run s = (.ok a, t)) fun f t => act.run s = (.error f, t) := by
  unfold Ends
  split
  · next heq => exact heq
  · next heq => exact heq

/-- Both ends of an action may be weakened. -/
theorem mono (h : act.Ends s answers faults) (hanswers : ∀ a t, answers a t → answers' a t)
    (hfaults : ∀ f t, faults f t → faults' f t) : act.Ends s answers' faults' := by
  unfold Ends at h ⊢
  split at h
  · exact hanswers _ _ h
  · exact hfaults _ _ h

/-- What holds however an action ends holds of the store that it leaves. -/
theorem left {P : Store → Prop} (h : act.Ends s (fun _ t => P t) fun _ t => P t) :
    P (act.run s).2 := by
  unfold Ends at h
  split at h
  · next heq => rwa [heq]
  · next heq => rwa [heq]

/-- What holds of the store that an action leaves holds however it ends. -/
theorem of_left {P : Store → Prop} (h : P (act.run s).2) :
    act.Ends s (fun _ t => P t) fun _ t => P t := by
  unfold Ends
  split
  · next heq => rwa [heq] at h
  · next heq => rwa [heq] at h

/-- Of an action that does not fault it may be said how it would. -/
theorem sure (h : act.Ends s answers fun _ _ => False) : act.Ends s answers faults :=
  h.mono (fun _ _ ht => ht) fun _ _ hf => hf.elim

/-- What is said of an action in two ways is said of it at once. -/
theorem and (h : act.Ends s answers faults) (h' : act.Ends s answers' faults') :
    act.Ends s (fun a t => answers a t ∧ answers' a t) fun f t => faults f t ∧ faults' f t := by
  unfold Ends at h h' ⊢
  split
  · next heq =>
    rw [heq] at h h'
    exact ⟨h, h'⟩
  · next heq =>
    rw [heq] at h h'
    exact ⟨h, h'⟩

/-- Of the answers more may be said than of the faults. -/
theorem also (h : act.Ends s answers faults) (h' : act.Ends s answers' faults') :
    act.Ends s (fun a t => answers a t ∧ answers' a t) faults :=
  (h.and h').mono (fun _ _ ht => ht) fun _ _ hf => hf.1

/-- Two actions in turn end in a fault of the first, or as the second does from where the first
answered. -/
theorem bind (h : act.Ends s answers faults)
    (hnext : ∀ a t, answers a t → (second a).Ends t nexts faults) :
    (act >>= second).Ends s nexts faults := by
  unfold Ends at h ⊢
  rw [run_bind]
  cases hrun : act.run s with
  | mk result t =>
    rw [hrun] at h
    cases result with
    | ok a => exact hnext a t h
    | error f => exact h

end Ends

/-- An action that keeps to a conduct ends as that says. -/
theorem Keeps.ends {c : Conduct} (h : act.Keeps c s answers) :
    act.Ends s (fun a t => c.change s t ∧ answers a t) fun f t => c.change s t ∧ c.fault s f :=
  h

/-- An action that answers has no other end. -/
theorem Answers.ends (h : act.Answers s) : act.Ends s (fun _ _ => True) fun _ _ => False := by
  obtain ⟨a, t, hrun⟩ := h
  unfold Ends
  rw [hrun]
  trivial

/-- An action that reads leaves the store as it is at either end. -/
theorem Reads.ends {answers : α → Prop} (h : act.Reads s answers) :
    act.Ends s (fun a t => t = s ∧ answers a) fun f t => t = s ∧ f.isBookkeeping = false := by
  obtain ⟨result, hrun, hplain, hanswers⟩ := h
  unfold Ends
  rw [hrun]
  cases result with
  | ok a => exact ⟨rfl, hanswers a rfl⟩
  | error f => exact ⟨rfl, hplain f rfl⟩

/-- A question first: it may fault plainly where it is asked, and the rest starts from the same
store. -/
theorem Reads.bind_plain {answers : α → Prop} (h : act.Reads s answers)
    (hfaults : ∀ f, f.isBookkeeping = false → faults f s)
    (hnext : ∀ a, answers a → (second a).Ends s nexts faults) :
    (act >>= second).Ends s nexts faults := by
  refine Ends.bind (h.ends.mono (fun _ _ hat => hat) ?_) ?_
  · rintro f _ ⟨rfl, hplain⟩
    exact hfaults f hplain
  · rintro a _ ⟨rfl, ha⟩
    exact hnext a ha

/-- A question first, where it does not matter how it faults. -/
theorem Reads.bind_ends {answers : α → Prop} (h : act.Reads s answers) (hfaults : ∀ f, faults f s)
    (hnext : ∀ a, answers a → (second a).Ends s nexts faults) :
    (act >>= second).Ends s nexts faults :=
  h.bind_plain (fun f _ => hfaults f) hnext

theorem ends_pure {a : α} (h : answers a s) : (pure a : Act α).Ends s answers faults := h

theorem ends_throw {f : Fault} (h : faults f s) : (throw f : Act α).Ends s answers faults := h

theorem ends_update {kind : Kind} {id : Id kind} {f : Object kind → Object kind}
    {answers : Unit → Store → Prop} (h : answers () (s.modify id f)) :
    (update id f).Ends s answers faults := h

/-- A change of one object, and what comes after it. -/
theorem ends_update_bind {kind : Kind} {id : Id kind} {f : Object kind → Object kind}
    {second : Unit → Act β} (h : (second ()).Ends (s.modify id f) nexts faults) :
    (update id f >>= second).Ends s nexts faults := h

/-- An object that is there is fetched. -/
theorem ends_fetch_bind {kind : Kind} {id : Id kind} {o : Object kind}
    {second : Object kind → Act β} (ho : s.get? id = some o) (h : (second o).Ends s nexts faults) :
    (fetch id >>= second).Ends s nexts faults := by
  unfold Ends
  rwa [run_fetch_bind ho]

/-- What is known to answer is gone through. -/
theorem ends_run_bind {a : α} (hrun : act.run s = (.ok a, t))
    (h : (second a).Ends t nexts faults) : (act >>= second).Ends s nexts faults := by
  unfold Ends
  rw [run_bind, hrun]
  exact h

/-- What depends on the store that the rest starts from is looked at there. -/
theorem ends_get_bind {second : Store → Act β} (h : (second s).Ends s nexts faults) :
    (get >>= second).Ends s nexts faults := h

/-- A question in an action that answers is answered. -/
theorem run_ask_bind_ok {question : Store → Except Fault α} {b : β}
    (h : (ask question >>= second).run s = (.ok b, t)) :
    ∃ a, question s = .ok a ∧ (second a).run s = (.ok b, t) := by
  obtain ⟨a, u, hask, h⟩ := run_bind_ok h
  rw [run_ask] at hask
  obtain ⟨hanswer, rfl⟩ := Prod.mk.inj hask
  exact ⟨a, hanswer, h⟩

/-- A question first: where it is answered, the rest starts from the same store. -/
theorem ends_ask_bind {question : Store → Except Fault α}
    (hfaults : ∀ f, question s = .error f → faults f s)
    (h : ∀ a, question s = .ok a → (second a).Ends s nexts faults) :
    (ask question >>= second).Ends s nexts faults := by
  unfold Ends at h ⊢
  rw [run_bind, run_ask]
  cases hanswer : question s with
  | ok a => exact h a hanswer
  | error f => exact hfaults f hanswer

/-- A question whose answer is known, and what comes after it. -/
theorem ends_answer_bind {question : Store → Except Fault α} {a : α} (ha : question s = .ok a)
    (h : (second a).Ends s nexts faults) : (ask question >>= second).Ends s nexts faults :=
  ends_run_bind (by rw [run_ask, ha]) h

/-- Actions over a list: what holds after a part of the list holds after one more element. -/
theorem ends_forM {f : α → Act Unit} {l : List α} (P : List α → Store → Prop)
    (hstart : P [] s)
    (hstep : ∀ before a after, l = before ++ a :: after → ∀ t, P before t →
      (f a).Ends t (fun _ => P (before ++ [a])) faults) :
    (l.forM f).Ends s (fun _ => P l) faults := by
  -- the part of the list that has been gone through grows in the induction
  have hfrom : ∀ after before, l = before ++ after → ∀ t, P before t →
      (after.forM f).Ends t (fun _ => P l) faults := by
    intro after
    induction after with
    | nil =>
      intro before hl t ht
      rw [List.append_nil] at hl
      subst hl
      exact ends_pure ht
    | cons a after ih =>
      intro before hl t ht
      show (f a >>= fun _ => after.forM f).Ends t (fun _ => P l) faults
      refine (hstep before a after hl t ht).bind fun _ u hu => ?_
      exact ih (before ++ [a]) (by rw [hl, List.append_assoc]; rfl) u hu
  exact hfrom l [] rfl s hstart

/-! ## Changing the store in one way only -/

/-- Wherever it starts and however it ends, the action changes the store only as a relation says. -/
def Only (R : Store → Store → Prop) (act : Act α) : Prop :=
  ∀ s, R s (act.run s).2

section Only

variable {R : Store → Store → Prop}

/-- A relation between stores that all runs keep holds at either end. -/
theorem Only.ends (h : act.Only R) (s : Store) :
    act.Ends s (fun _ t => R s t) fun _ t => R s t := by
  have hs := h s
  unfold Ends
  split
  · next heq => rwa [heq] at hs
  · next heq => rwa [heq] at hs

/-- What an action changes adds to what has changed before. -/
theorem Ends.onwards [IsPreorder Store R] (hst : R s t)
    (h : act.Ends t (fun _ u => R t u) fun _ u => R t u) :
    act.Ends t (fun _ u => R s u) fun _ u => R s u :=
  h.mono (fun _ _ => trans_of R hst) fun _ _ => trans_of R hst

/-- What holds between the stores of a run also holds with an earlier store, by transitivity. -/
theorem Only.after [IsPreorder Store R] (h : act.Only R) (hst : R s t) :
    act.Ends t (fun _ u => R s u) fun _ u => R s u :=
  .onwards hst (h.ends t)

/-- Actions in sequence keep a preorder that each of them keeps. -/
theorem Only.bind [IsPreorder Store R] (h : act.Only R) (hnext : ∀ a, (second a).Only R) :
    (act >>= second).Only R := by
  intro s
  have hs := h s
  rw [run_bind]
  cases hrun : act.run s with
  | mk result t =>
    rw [hrun] at hs
    cases result with
    | ok a => exact trans_of R hs (hnext a t)
    | error f => exact hs

/-- A change of one object keeps a relation if changing that object in any store does. -/
theorem only_update {kind : Kind} {id : Id kind} {f : Object kind → Object kind}
    (h : ∀ s, R s (s.modify id f)) : (update id f).Only R :=
  h

/-- A new object keeps a relation if adding one to any store does. -/
theorem only_create {kind : Kind} {object : Object kind} (h : ∀ s, R s (s.push kind object)) :
    (create kind object).Only R :=
  h

theorem only_modify {f : Store → Store} (h : ∀ s, R s (f s)) : (modify f : Act Unit).Only R :=
  h

/-- What depends on the store that an action starts from is looked at from there. -/
theorem only_get_bind {second : Store → Act α} (h : ∀ s, R s ((second s).run s).2) :
    (get >>= second).Only R :=
  h

variable [IsPreorder Store R]

theorem only_pure (a : α) : (pure a : Act α).Only R :=
  fun s => refl_of R s

theorem only_throw (f : Fault) : (throw f : Act α).Only R :=
  fun s => refl_of R s

theorem only_get : (get : Act Store).Only R :=
  fun s => refl_of R s

theorem only_ofExcept (result : Except Fault α) : (MonadExcept.ofExcept result : Act α).Only R := by
  cases result with
  | ok a => exact only_pure a
  | error f => exact only_throw f

theorem only_ask (question : Store → Except Fault α) : (ask question).Only R := by
  intro s
  rw [run_ask]
  exact refl_of R s

theorem only_fetch {kind : Kind} (id : Id kind) : (fetch id).Only R :=
  only_ask _

theorem only_require (holds : Bool) : (require holds).Only R := by
  cases holds with
  | true => exact only_pure ()
  | false => exact only_throw _

/-- An action on each entry of a list keeps what it keeps on one. -/
theorem only_forM {f : α → Act Unit} {l : List α} (h : ∀ a ∈ l, (f a).Only R) :
    (l.forM f).Only R := by
  induction l with
  | nil => exact only_pure ()
  | cons a rest ih =>
    show (f a >>= fun _ => rest.forM f).Only R
    exact (h a List.mem_cons_self).bind fun _ => ih fun b hb => h b (List.mem_cons_of_mem a hb)

/-- Answers for each entry of a list keep what the answer for one keeps. -/
theorem only_mapM {f : α → Act β} {l : List α} (h : ∀ a, (f a).Only R) : (l.mapM f).Only R := by
  induction l with
  | nil => exact only_pure []
  | cons a rest ih =>
    rw [List.mapM_cons]
    exact (h a).bind fun b => ih.bind fun bs => only_pure _

theorem only_valueIn (slot : Slot) : (valueIn slot).Only R := only_ask _

theorem only_blockIn (slot : Slot) : (blockIn slot).Only R := only_ask _

theorem only_instructionIn (slot : Slot) : (instructionIn slot).Only R := only_ask _

theorem only_idIn (kind : Kind) (slot : Slot) : (idIn kind slot).Only R := only_ask _

theorem only_typeIn (slot : Slot) : (typeIn slot).Only R := by
  unfold typeIn
  split
  · exact (only_fetch _).bind fun _ => only_pure _
  · exact (only_valueIn _).bind fun _ => (only_fetch _).bind fun _ => only_pure _

theorem only_optionally {get : Slot → Act α} (h : ∀ slot, (get slot).Only R) (slot : Slot) :
    (optionally get slot).Only R := by
  cases slot with
  | none => exact only_pure none
  | some ref => exact (h _).bind fun _ => only_pure _

end Only

end Act

end SsaDebugInfo
