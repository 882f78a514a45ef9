import RitualLedger.Store.Basic

/-!
# Steps

A step is one task of a ritual as one subject does it. Its id names the record of its completion,
and the rewards and actions that follow from it are keyed by that id.
-/

namespace RitualLedger

/-- A task of a ritual, done by a subject. -/
structure Step where
  ritual : String
  subject : String
  index : UInt64
deriving DecidableEq, Repr

namespace Step

/-- The id of a step: ritual, subject and index, parted by colons. -/
def id (s : Step) : String := s.ritual ++ ":" ++ s.subject ++ ":" ++ toString s.index

/-- The document that says that the step was taken. -/
def key (s : Step) : DocKey := Collection.completions.key s.id

end Step

/-- The document of the evidence that a subject hands in for a task. -/
def evidenceKey (task subject : String) : DocKey :=
  Collection.evidence.key (task ++ ":" ++ subject)

end RitualLedger
