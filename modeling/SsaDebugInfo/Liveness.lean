import SsaDebugInfo.Diagnostics.Engine
import SsaDebugInfo.Reachability

/-!
# What stays alive

An object stays as long as it can be reached from the roots through the places of objects that hold
others. The handle of a value of a function does not hold the value, and a context does not hold
what its tables name: an entry goes when its handle or wrapper goes.
-/

namespace SsaDebugInfo

/-- The places of a function that keep an object alive. -/
def Function.slots (f : Function) : List Slot :=
  f.subprogram :: f.arguments ++ f.blocks.map Slot.ofValue ++
    f.module.toList.map (some ∘ Ref.module) ++ f.context.toList.map (some ∘ Ref.context)

/-- The objects that an index lists. -/
def Index.refs (index : Index) : List Ref :=
  index.units ++ index.subprograms ++ index.globals

/-- The places of a module that keep an object alive. -/
def Module.slots (m : Module) : List Slot :=
  some (.context m.context) :: some (.layout m.layout) :: m.functions.map (some ∘ Ref.function) ++
    m.globals.map Slot.ofValue ++ m.units ++
    (m.state.bind (·.index)).toList.flatMap fun index => index.refs.map some

/-- The places of a diagnostic that keep an object alive. -/
def Diagnostic.slots (d : Diagnostic) : List Slot :=
  d.function :: d.location :: d.notes

namespace Store

variable (s : Store)

/-- The places of an object that keep an object alive. -/
def slotsOf : Ref → List Slot
  | .value id => ((s.get? id).map Value.slots).getD []
  | .node id => ((s.get? id).map Node.slots).getD []
  | .function id => ((s.get? id).map Function.slots).getD []
  | .module id => ((s.get? id).map Module.slots).getD []
  | .context _ | .layout _ => []
  | .engine id => ((s.get? id).map Engine.slots).getD []
  | .emitter id => ((s.get? id).map fun e => [some (.engine e.engine)]).getD []
  | .diagnostic id => ((s.get? id).map Diagnostic.slots).getD []

/-- The objects that an object keeps alive. -/
def holds (ref : Ref) : List Ref :=
  (s.slotsOf ref).filterMap id

/-- How many identities have been given out. -/
def size : Nat :=
  s.values.size + s.nodes.size + s.functions.size + s.modules.size + s.contexts.size +
    s.layouts.size + s.engines.size + s.emitters.size + s.diagnostics.size

/-- The objects that the roots keep alive. -/
def live (roots : List Ref) : List Ref :=
  Reachability.mark s.holds (s.size + roots.length + 1) roots

/-- The store without the objects that `keep` does not hold of, and without the entries that name
them in the tables of contexts. -/
def retain (keep : Ref → Bool) : Store :=
  { s with
    values := s.values.retain (keep ∘ Ref.value)
    nodes := s.nodes.retain (keep ∘ Ref.node)
    functions := s.functions.retain (keep ∘ Ref.function)
    modules := s.modules.retain (keep ∘ Ref.module)
    contexts := (s.contexts.retain (keep ∘ Ref.context)).map fun c =>
      { handles := c.handles.filter fun entry => keep (.node entry.2)
        wrappers := c.wrappers.filter fun entry => keep (.value entry.2) }
    layouts := s.layouts.retain (keep ∘ Ref.layout)
    engines := s.engines.retain (keep ∘ Ref.engine)
    emitters := s.emitters.retain (keep ∘ Ref.emitter)
    diagnostics := s.diagnostics.retain (keep ∘ Ref.diagnostic) }

/-- The store without the objects that the roots do not keep alive. The global context is always
kept. -/
def collect (roots : List Slot) : Store :=
  let live := s.live (.context globalContext :: roots.filterMap id)
  s.retain live.contains

end Store

end SsaDebugInfo
