import RitualLedger.Ritual.Step

/-!
# Scopes

A batch of actions that may be repeated runs in a scope. The scope says what the batch is for, and
gives each action, by its position, the key under which the ledger or the queue of notifications
takes it at most once.
-/

namespace RitualLedger

/-- What a batch of actions is for. -/
inductive Scope where
  /-- The reward of a task. -/
  | reward (step : Step)
  /-- The conditions on the completion of a task. -/
  | completion (step : Step)
  /-- The conditions on the completion of a ritual, which came with its last task. -/
  | ritualCompletion (step : Step)
  /-- The conditions on a streak of some length. -/
  | streak (ritual subject : String) (count : UInt32)
  /-- The conditions on a logged mood. -/
  | mood (entry : String)
  /-- A scope that a client has named. -/
  | named (name : String)
deriving DecidableEq, Repr

namespace Scope

/-- The text of a scope. -/
def text : Scope → String
  | .reward step => step.id ++ ":reward"
  | .completion step => step.id ++ ":completion"
  | .ritualCompletion step => step.id ++ ":ritual_completion"
  | .streak ritual subject count =>
    "streak:" ++ ritual ++ ":" ++ subject ++ ":" ++ toString count
  | .mood entry => "mood:" ++ entry
  | .named name => name

/-- The key of the action at a position. -/
def key (s : Scope) (position : Nat) : String := s.text ++ ":" ++ toString position

end Scope

end RitualLedger
