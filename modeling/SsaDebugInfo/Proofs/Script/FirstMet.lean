import Mathlib.Data.List.Pairwise
import SsaDebugInfo.Proofs.FirstMet
import SsaDebugInfo.Proofs.Script.Leads

/-!
# What an index has gone through in scripts

An index may outlive what it was made from: between one module and the next, units and functions may
enter modules, descriptors may enter units, and subprograms may be replaced. Nodes stay of their
kind all the while, so the index lists what it has met, each node once, where it was met first.

- `Session.Leads.part?_eq`: a node belongs in the same list of indexes as before.
- `Session.index_firstMet`: an index of any modules, as they are in one session after another.
-/

namespace SsaDebugInfo

open Store

variable {c : Scope} {s t : Store} {n : NodeId} {part : Option Index.Part}

theorem Node.part?_of_core {m n : Node} (h : n.core = m.core) : n.part? = m.part? := by
  cases m <;> cases n <;> simp_all [core, rename, part?]

theorem Node.part?_extend (n : Node) (globals subprograms : List Slot) :
    (n.extend globals subprograms).part? = n.part? := by
  cases n <;> rfl

/-- The identity of a node has been given out, and if the node is still there, it belongs in the
given list of indexes, or in none. -/
structure Store.Ranks (s : Store) (n : NodeId) (part : Option Index.Part) : Prop where
  given : n.index < s.nodes.size
  part? : ∀ o, s.get? n = some o → o.part? = part

theorem Store.ranks_of_get? {o : Node} (ho : s.get? n = some o) : s.Ranks n o.part? where
  given := index_lt_of_get? ho
  part? p hp := by rw [Option.some_inj.mp (hp.symm.trans ho)]

theorem Touch.ranks (h : Touch c s t) (hs : s.Ranks n part) : t.Ranks n part := by
  refine ⟨Nat.lt_of_lt_of_le hs.given (h.extends.size .node), fun p hp => ?_⟩
  -- the node is no new one
  have hthere : (s.get? n).isSome := by
    rcases h.extends.fresh n (by rw [hp]; rfl) with hthere | hnew
    · exact hthere
    · exact absurd hs.given (Nat.not_lt.mpr hnew)
  obtain ⟨o, ho⟩ := Option.isSome_iff_exists.mp hthere
  rw [← hs.part? o ho]
  have hsame : t.get? n = s.get? n → p.part? = o.part? := fun hget => by
    rw [Option.some_inj.mp (hp.symm.trans (hget.trans ho))]
  cases h with
  | annotate => exact hsame rfl
  | @change kind id f hf =>
    cases kind with
    | node =>
      rw [get?_modify, ho] at hp
      split at hp
      · rw [← Option.some_inj.mp hp]
        exact Node.part?_of_core (hf o).1
      · rw [Option.some_inj.mp hp]
    | _ => exact hsame rfl
  | @create kind =>
    cases kind with
    | node => exact hsame (get?_push_of_has n _ hthere)
    | _ => exact hsame rfl
  | addHandle => exact hsame (get?_push_of_has n _ hthere)
  | index => exact hsame rfl
  | describe d =>
    cases d with
    | extendUnit unit globals subprograms =>
      rw [Description.apply, get?_modify, ho] at hp
      split at hp
      · rw [← Option.some_inj.mp hp]
        exact o.part?_extend globals subprograms
      · rw [Option.some_inj.mp hp]
    | _ => exact hsame rfl

theorem Store.Ranks.collect (hs : s.Ranks n part) (roots : List Slot) :
    (s.collect roots).Ranks n part where
  given := by
    have hsize : (s.collect roots).nodes.size = s.nodes.size := by
      simp [Store.collect, retain, Table.retain, Table.size]
    exact hsize ▸ hs.given
  part? o ho := hs.part? o (get?_of_get?_collect (by decide) ho).1

end SsaDebugInfo

namespace SsaDebugInfo.Script.Session

open Act Store

variable {allows : Session → Operation → Given → Given → Bool} {session next : Session}

/-- A node that is still there belongs in the same list of indexes as before. -/
theorem Leads.part?_eq (hleads : Leads allows session next) (h : Reachable {} session)
    {ref : Ref} {p : Index.Part} (hp : session.store.partOf? ref = some p) {o : Node}
    (ho : next.store.nodeIn? (some ref) = some o) : o.part? = some p := by
  obtain ⟨before, hbefore, hp⟩ := Option.bind_eq_some_iff.mp hp
  obtain ⟨n, hn, hbefore⟩ := Option.bind_eq_some_iff.mp hbefore
  have ho : next.store.get? n = some o := by simpa [nodeIn?, hn] using ho
  have hranks : next.store.Ranks n before.part? := by
    refine hleads.preserves (P := fun s => s.Ranks n before.part?) h ?_ ?_ ?_
      (ranks_of_get? hbefore)
    · intro session operation bindTo into _ hs _
      exact (touches_runOperation session operation bindTo into).preserves
        (fun hs htouch => htouch.ranks hs) hs
    · exact fun _ hs htouches => htouches.preserves (fun hs htouch => htouch.ranks hs) hs
    · exact fun _ hs => hs.collect _
  exact (hranks.part? o ho).trans hp

/-- No node belongs in one list of indexes in one session and in another list in another. -/
theorem partOf?_inj {calls : List (Session × ModuleId)}
    (hreachable : ∀ call ∈ calls, Reachable {} call.1)
    (hpairwise : (calls.map Prod.fst).Pairwise (Leads fun _ _ _ _ => true))
    {a b : Session × ModuleId} (ha : a ∈ calls) (hb : b ∈ calls) {ref : Ref} {p q : Index.Part}
    (hp : a.1.store.partOf? ref = some p) (hq : b.1.store.partOf? ref = some q) : p = q := by
  let agree : Session × ModuleId → Session × ModuleId → Prop := fun a b =>
    ∀ ref p q, a.1.store.partOf? ref = some p → b.1.store.partOf? ref = some q → p = q
  have hsymm : Std.Symm agree := ⟨fun a b h ref p q hp hq => (h ref q p hq hp).symm⟩
  have hself : ∀ a ∈ calls, agree a a := fun a _ ref p q hp hq =>
    Option.some_inj.mp (hp.symm.trans hq)
  have hagree : calls.Pairwise agree := by
    refine (List.pairwise_map.mp hpairwise).imp_of_mem fun ha _ hleads ref p q hp hq => ?_
    obtain ⟨o, ho, hq⟩ := Option.bind_eq_some_iff.mp hq
    exact Option.some_inj.mp ((Leads.part?_eq hleads (hreachable _ ha) hp ho).symm.trans hq)
  exact hagree.forall_of_forall hself ha hb ref p q hp hq

/-- The modules that an index goes through, each in the store of its session. -/
def inStores (calls : List (Session × ModuleId)) : List (Store × ModuleId) :=
  calls.map fun call => (call.1.store, call.2)

/-- Let an index go through any modules, each in a session that comes after those before it, where
the units of the module are units, and they and its functions lead to nodes of the right kinds or to
none. Then it answers, and each of its lists holds what the modules have led to, each node once, in
the order of first meetings. Going through any of the modules again changes nothing. In the last
session, as long as the descriptors are still there, the one that is found for a global variable is
the one that was met first. -/
theorem index_firstMet {calls : List (Session × ModuleId)} {last : Session}
    (hcalls : List.IsChain (Leads fun _ _ _ _ => true) ({} :: (calls.map Prod.fst ++ [last])))
    (hmodules : ∀ call ∈ calls,
      call.1.store.Has (.module call.2) ∧ call.1.store.Indexable call.2) :
    ∃ index, (Index.ofModules (inStores calls)).run.run {} = (.ok (), index) ∧
      (∀ part, index.listed part = (Index.mentionsIn (inStores calls) part).eraseDups ∧
        (index.listed part).Nodup) ∧
      (∀ call ∈ calls, (Index.ofModule call.1.store call.2).run.run index = (.ok (), index)) ∧
      ((∀ ref ∈ index.globals, last.store.Has ref) → ∀ storage,
        Index.descriptorOf last.store index storage =
          .ok ((Index.mentionsIn (inStores calls) .globals).find? fun ref =>
            (last.store.nodeIn? (some ref)).bind Node.storage? = some storage)) := by
  obtain ⟨hfirst, hpairwise⟩ := List.pairwise_cons.mp (List.isChain_iff_pairwise.mp hcalls)
  obtain ⟨hpairwise, -, hlast⟩ := List.pairwise_append.mp hpairwise
  have hreachable : ∀ call ∈ calls, Reachable {} call.1 := fun call hcall =>
    Leads.reachable (hfirst _ (List.mem_append_left _ (List.mem_map_of_mem hcall))) .new
  -- one list holds nodes of one kind, and a node has the same kind in all sessions of the chain
  let kind : Ref → Index.Part → Prop := fun ref part =>
    ∃ call ∈ calls, call.1.store.partOf? ref = some part
  have hkind : ∀ ref p q, kind ref p → kind ref q → p = q := fun _ _ _ ⟨_, ha, hp⟩ ⟨_, hb, hq⟩ =>
    partOf?_inj hreachable hpairwise ha hb hp hq
  have hfunctions : ∀ call ∈ calls, ∀ f ∈ call.1.store.functionsIn call.2,
      call.1.store.Has (.function f) := fun call hcall =>
    ((hreachable call hcall).sound.store.closed.hasSources call.2).functions
  have hcalled : ∀ call ∈ inStores calls, call.1.Has (.module call.2) ∧ call.1.Indexable call.2 ∧
      (∀ f ∈ call.1.functionsIn call.2, call.1.Has (.function f)) ∧
      ∀ ref part, call.1.partOf? ref = some part → kind ref part := by
    intro _ hmem
    obtain ⟨call, hcall, rfl⟩ := List.mem_map.mp hmem
    obtain ⟨hmodule, hindexable⟩ := hmodules call hcall
    exact ⟨hmodule, hindexable, hfunctions call hcall, fun ref part h => ⟨call, hcall, h⟩⟩
  obtain ⟨index, hrun, hindex⟩ := (Index.gathers_empty kind).ofModules hkind hcalled
  simp only [List.nil_append] at hindex
  refine ⟨index, hrun, fun part => ⟨hindex.listed part, ?_⟩, fun call hcall => ?_,
    fun hthere storage => hindex.descriptorOf (fun ref href => ?_) storage⟩
  · rw [hindex.listed part]
    exact nodup_eraseDups _
  · obtain ⟨hmodule, hindexable⟩ := hmodules call hcall
    obtain ⟨next, hagain, hnext⟩ := hindex.ofModule hkind hmodule hindexable
      (hfunctions call hcall) fun ref part h => ⟨call, hcall, h⟩
    rw [hagain, hindex.eq_of_subset hnext fun part ref href => List.mem_flatMap.mpr
      ⟨_, List.mem_map.mpr ⟨call, hcall, rfl⟩, href⟩]
  · -- a descriptor that is there still leads to the storage that it led to when it was met
    have hmet : ref ∈ index.listed .globals := href
    rw [hindex.listed .globals, List.mem_eraseDups] at hmet
    obtain ⟨call, hcall, hp⟩ := hindex.kinds .globals ref hmet
    have hleads := hlast _ (List.mem_map_of_mem hcall) _ List.mem_cons_self
    obtain ⟨n, rfl⟩ : ∃ n, ref = .node n := by
      obtain ⟨o, ho, -⟩ := Option.bind_eq_some_iff.mp hp
      obtain ⟨n, hn, -⟩ := Option.bind_eq_some_iff.mp ho
      exact ⟨n, Option.some_inj.mp (Slot.node?_eq_some_iff.mp hn)⟩
    obtain ⟨o, ho⟩ := Option.isSome_iff_exists.mp (hthere _ href)
    have ho : last.store.nodeIn? (.ofNode n) = some o := ho
    rw [isGlobal_iff, Store.partOf?, ho]
    exact Leads.part?_eq hleads (hreachable call hcall) hp ho

/-- Two descriptors of a global variable in the lists of two units, with repetitions and an empty
place. Both modules have the longer unit, and one of them has it twice. A subprogram is in a unit
and on a function, another on a function only, and a function has none. -/
def sharedUnits : List Command :=
  [.run (.make (.global "g" (.int 32) none)) (some "g") none,
   .run (.metadata (.globalDescriptor "g" none none 1 (some "g"))) (some "old") none,
   .run (.metadata (.globalDescriptor "g" none none 2 (some "g"))) (some "new") none,
   .run (.metadata (.subprogram "p" none 1 none none)) (some "p") none,
   .run (.metadata (.subprogram "q" none 2 none none)) (some "q") none,
   .run (.metadata (.unit none "" [some "old", none, some "new", some "old"] [some "p", none]))
     (some "long") none,
   .run (.metadata (.unit none "" [some "new"] [])) (some "short") none,
   .run (.make (.function "p" .void [] (some "p") none)) (some "fp") none,
   .run (.make (.function "q" .void [] (some "q") none)) (some "fq") none,
   .run (.make (.function "r" .void [] none none)) (some "fr") none,
   .run (.modules (.module "m" none .standard)) (some "m") none,
   .run (.modules (.addUnit (some "m") (some "short"))) none none,
   .run (.modules (.addUnit (some "m") (some "long"))) none none,
   .run (.modules (.addFunction (some "m") (some "fr"))) none none,
   .run (.modules (.module "n" none .standard)) (some "n") none,
   .run (.modules (.addUnit (some "n") (some "long"))) none none,
   .run (.modules (.addUnit (some "n") (some "long"))) none none,
   .run (.modules (.addFunction (some "n") (some "fp"))) none none,
   .run (.modules (.addFunction (some "n") (some "fq"))) none none]

/-- A descriptor of nothing enters the shorter unit. -/
def extendedUnit : List Command :=
  [.run (.metadata (.globalDescriptor "h" none none 3 none)) (some "late") none,
   .run (.metadata (.extendUnit (some "short") [some "late"] [])) none none]

/-- The session with the shared units, and the one in which one of them has been extended. -/
def sharedSession : Session :=
  (runAll [] {} sharedUnits).1

@[inherit_doc sharedSession]
def extendedSession : Session :=
  (runAll [] sharedSession extendedUnit).1

/-- The first module is gone through, then both in the other order after the extension. -/
def sharedCalls : List (Session × ModuleId) :=
  [(sharedSession, ⟨0⟩), (extendedSession, ⟨1⟩), (extendedSession, ⟨0⟩)]

/-- The descriptor of the variable, value 0, is node 1, since the shorter unit comes first. -/
theorem index_firstMet_sharedCalls :
    ∃ index, (Index.ofModules (inStores sharedCalls)).run.run {} = (.ok (), index) ∧
      index.units = [.node ⟨5⟩, .node ⟨4⟩] ∧ index.subprograms = [.node ⟨2⟩, .node ⟨3⟩] ∧
      index.globals = [.node ⟨1⟩, .node ⟨0⟩, .node ⟨6⟩] ∧
      Index.descriptorOf extendedSession.store index (.ofValue ⟨0⟩) = .ok (.ofNode ⟨1⟩) := by
  have hfacts : allowsAll (fun _ _ _ _ => true) [] {} sharedUnits = true ∧
      allowsAll (fun _ _ _ _ => true) [] sharedSession extendedUnit = true ∧
      (∀ call ∈ sharedCalls,
        call.1.store.Has (.module call.2) ∧ call.1.store.Indexable call.2) ∧
      (Index.mentionsIn (inStores sharedCalls) .units).eraseDups = [.node ⟨5⟩, .node ⟨4⟩] ∧
      (Index.mentionsIn (inStores sharedCalls) .subprograms).eraseDups =
        [.node ⟨2⟩, .node ⟨3⟩] ∧
      (Index.mentionsIn (inStores sharedCalls) .globals).eraseDups =
        [.node ⟨1⟩, .node ⟨0⟩, .node ⟨6⟩] ∧
      (∀ n ∈ [1, 0, 6], extendedSession.store.Has (.node ⟨n⟩)) ∧
      ((Index.mentionsIn (inStores sharedCalls) .globals).find? fun ref =>
        (extendedSession.store.nodeIn? (some ref)).bind Node.storage? = some (.ofValue ⟨0⟩)) =
          some (.node ⟨1⟩) := by
    decide +kernel
  obtain ⟨hfirst, hsecond, hmodules, hunits, hsubprograms, hglobals, hthere, hfound⟩ := hfacts
  have hshared : Leads (fun _ _ _ _ => true) {} sharedSession := leads_runAll hfirst
  have hextended : Leads (fun _ _ _ _ => true) sharedSession extendedSession :=
    leads_runAll hsecond
  have hchain : List.IsChain (Leads fun _ _ _ _ => true)
      ({} :: (sharedCalls.map Prod.fst ++ [extendedSession])) := by
    simp [sharedCalls, hshared, hextended, Relation.ReflTransGen.refl]
  obtain ⟨index, hrun, hlisted, -, hdescriptor⟩ := index_firstMet hchain hmodules
  have hlistedGlobals : index.globals = _ := (hlisted .globals).1.trans hglobals
  refine ⟨index, hrun, (hlisted .units).1.trans hunits,
    (hlisted .subprograms).1.trans hsubprograms, hlistedGlobals, ?_⟩
  rw [hdescriptor (by simpa [hlistedGlobals] using hthere), hfound]

end SsaDebugInfo.Script.Session
