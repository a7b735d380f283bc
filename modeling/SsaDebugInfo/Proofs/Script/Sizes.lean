import SsaDebugInfo.Proofs.Layout.Transparency
import SsaDebugInfo.Proofs.Script.Leads

/-!
# Sizes in scripts

Modules may share a layout, which remembers the sizes that any of them asked for. However long a
session goes on, what a layout remembers is faithful, so nobody can tell from an answer what was
asked for before.

- `Session.Reachable.sizes_unremembered`: every query answers like one under a new layout.
-/

namespace SsaDebugInfo.Script.Session

open Act Store

variable {d : Discipline} {session : Session} {id : LayoutId} {layout : Layout}

theorem Reachable.faithfulLayouts (h : Reachable d session) : session.store.FaithfulLayouts :=
  h.touching faithfulLayouts_initial (fun hs htouch => htouch.faithfulLayouts hs)
    fun _ hs => hs.collect _

/-- Measuring a type answers what the layout answers, and the layout remembers. -/
theorem run_sizeUnder {s : Store} (hlayout : s.get? id = some layout) (t : Ty) :
    (sizeUnder id t).run s =
      ((layout.sizeInBits t).1, s.modify id fun _ => (layout.sizeInBits t).2) := by
  rw [sizeUnder, run_fetch_bind hlayout, run_bind, run_update]
  dsimp only
  cases (layout.sizeInBits t).1 <;> rfl

/-- In every session, whatever the modules that share a layout have asked it for, and whether or not
that had a size, every further sequence of queries answers type by type what a new layout with the
same text answers, sizes and faults alike. -/
theorem Reachable.sizes_unremembered (h : Reachable d session)
    (hlayout : session.store.get? id = some layout) :
    (∀ types, layout.sizesInTurn types =
      types.map fun t => (Layout.sizeInBits { text := layout.text } t).1) ∧
    ∀ t, (sizeUnder id t).run session.store =
      ((Layout.sizeInBits { text := layout.text } t).1,
        session.store.modify id fun _ => (layout.sizeInBits t).2) := by
  have hturn := Layout.sizesInTurn_eq (h.faithfulLayouts id layout hlayout)
  refine ⟨hturn, fun t => ?_⟩
  have hfirst : (layout.sizeInBits t).1 = (Layout.sizeInBits { text := layout.text } t).1 :=
    (List.cons.inj (hturn [t])).1
  rw [run_sizeUnder hlayout, hfirst]

/-- Two modules share a layout with pointers of 32 bits. Vectors are measured through the one and
the other, one of them of elements that have no size, and a struct that no target accepts. -/
def sharedLayout : List Command :=
  [.run (.layouts (.layout "e-p:32:32")) (some "l") none,
   .run (.modules (.module "m" none (.shared (some "l")))) (some "m") none,
   .run (.modules (.module "n" none (.shared (some "l")))) (some "n") none,
   .run (.layouts (.size none (some "m") (.vector 3 (.pointer 0)))) none none,
   .run (.layouts (.size none (some "n") (.vector 2 .void))) none none,
   .run (.layouts (.size none (some "m") (.struct [.int 8, .int 0] false))) none none,
   .run (.layouts (.size none (some "n") (.vector 2 (.vector 2 (.int 3))))) none none,
   .run (.layouts (.pointerSize (some "l") none)) none none]

/-- The layout, number 0, remembers six sizes by now. -/
theorem sizes_unremembered_sharedLayout :
    Reachable {} (runAll [] {} sharedLayout).1 ∧
      ∃ layout, (runAll [] {} sharedLayout).1.store.get? (⟨0⟩ : LayoutId) = some layout ∧
        layout.cache.length = 6 ∧
        layout.sizesInTurn [.vector 2 (.int 3), .vector 2 .void, .pointer 0] =
          [.ok 6, .error (.unsizedType "void"), .ok 32] := by
  have h : Reachable {} (runAll [] {} sharedLayout).1 := reachable_runAll .new (by decide +kernel)
  have hshared : ((runAll [] {} sharedLayout).1.store.get? (⟨0⟩ : LayoutId)).map
      (fun layout => (layout.text, layout.cache.length)) = some ("e-p:32:32", 6) := by
    decide +kernel
  obtain ⟨layout, hlayout, hkept⟩ := Option.map_eq_some_iff.mp hshared
  obtain ⟨htext, hlength⟩ := Prod.mk.inj hkept
  refine ⟨h, layout, hlayout, hlength, ?_⟩
  rw [(Reachable.sizes_unremembered h hlayout).1, htext]
  decide +kernel

end SsaDebugInfo.Script.Session
