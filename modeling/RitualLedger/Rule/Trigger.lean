import RitualLedger.Rule.Scalar

/-!
# Triggers

A trigger is an event of a ritual's life with the value that it carries: a task was completed (its
index), a mood was logged (its text), a streak was reported (its length), the ritual was completed
(true). A kind that names no known event is kept as it is spelled; no event has it.
-/

namespace RitualLedger

/-- The event that a condition listens for. -/
inductive TriggerKind where
  | completion
  | mood
  | streak
  | ritualCompletion
  | other (spelling : String)
deriving DecidableEq, Repr

namespace TriggerKind

/-- The spelling of a kind. -/
def text : TriggerKind → String
  | .completion => "completion"
  | .mood => "mood"
  | .streak => "streak"
  | .ritualCompletion => "ritual_completion"
  | .other spelling => spelling

/-- The spellings of the known kinds. -/
def spellings : List (String × TriggerKind) :=
  [("completion", .completion), ("mood", .mood), ("streak", .streak),
   ("ritual_completion", .ritualCompletion)]

/-- The kind of a spelling. -/
def ofText (s : String) : TriggerKind := (spellings.lookup s).getD (.other s)

/-- Whether the kind is one of the known events. -/
def isKnown : TriggerKind → Bool
  | .other _ => false
  | _ => true

/-- The kind of value that the event carries. -/
def valueKind? : TriggerKind → Option Scalar.Kind
  | .completion | .streak => some .number
  | .mood => some .text
  | .ritualCompletion => some .boolean
  | .other _ => none

instance : Document TriggerKind where
  encode k := .str k.text
  read? _
    | .str s => some (ofText s)
    | _ => none

end TriggerKind

/-- An event with its value. -/
structure Trigger where
  kind : TriggerKind
  value : Scalar
deriving DecidableEq, Repr

namespace Trigger

/-- A task was completed. The index is carried as a signed word of the same bits. -/
def completion (index : UInt64) : Trigger := ⟨.completion, .number index.toInt64⟩

/-- A mood was logged. -/
def mood (text : String) : Trigger := ⟨.mood, .text text⟩

/-- A streak was reported. -/
def streak (count : UInt32) : Trigger := ⟨.streak, .number count.toUInt64.toInt64⟩

/-- A ritual was completed. -/
def ritualCompletion : Trigger := ⟨.ritualCompletion, .flag true⟩

instance : Document Trigger where
  encode t := .obj [("kind", encode t.kind), ("value", encode t.value)]
  read? := Document.record do
    return ⟨← Document.required "kind", ← Document.required "value"⟩

end Trigger

end RitualLedger
