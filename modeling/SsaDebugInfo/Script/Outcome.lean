import SsaDebugInfo.Script.View

/-!
# Outcomes

What an operation leaves: the object to bind, and the answer, which is read off once the object is
bound. An operation finds the objects that it works on by their labels.
-/

namespace SsaDebugInfo.Script

/-- What an operation leaves: the object that it makes or finds for binding, and its answer. -/
structure Outcome where
  made : Option Slot := none
  answer : View → Except Fault Answer

namespace Outcome

/-- Nothing to tell. -/
def silent : Outcome :=
  { answer := fun _ => .ok .nothing }

/-- An answer that names no object. -/
def plain (answer : Answer) : Outcome :=
  { answer := fun _ => .ok answer }

/-- An answer that is the name of an object. -/
def object (slot : Slot) : Outcome :=
  { answer := fun view => .object <$> view.shown slot }

/-- An answer that is the names of several objects. -/
def objects (slots : List Slot) : Outcome :=
  { answer := fun view => .objects <$> slots.mapM view.shown }

/-- An object to bind, which is also the answer. -/
def creation (ref : Ref) : Outcome :=
  { Outcome.object (some ref) with made := some (some ref) }

/-- An object to bind that has nothing to tell. -/
def quiet (ref : Ref) : Outcome :=
  { silent with made := some (some ref) }

/-- A diagnostic to bind and to report. -/
def diagnostic (id : DiagnosticId) : Outcome :=
  { made := some (some (.diagnostic id)), answer := fun view => .report <$> view.report id }

end Outcome

/-- What is given, by its label. -/
def Labels.look (labels : Labels) (given : Given) : Act Slot :=
  MonadExcept.ofExcept (labels.get given)

/-- What is given, label by label. -/
def Labels.lookAll (labels : Labels) (given : List Given) : Act (List Slot) :=
  given.mapM labels.look

end SsaDebugInfo.Script
