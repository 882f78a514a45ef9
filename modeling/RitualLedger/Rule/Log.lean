import RitualLedger.Rule.Trigger
import RitualLedger.Rule.Action

/-!
# Action logs

What became of the actions of a batch, one result per action and in their order: it succeeded, it
failed for a reason, or it was skipped. A log carries the time of its batch; a log that another is
appended to keeps its own.
-/

namespace RitualLedger

/-- What became of an action. -/
inductive ActionStatus where
  | success
  /-- Refused; the actions before and after it are unaffected. -/
  | failed (reason : String) (retriable : Bool)
  /-- Not applied, in a dry run or because it had been applied before. -/
  | skipped (reason : String)
deriving DecidableEq, Repr

/-- The result of one action. -/
structure ActionResult where
  /-- The event whose condition asked for the action; none for the reward of a task. -/
  trigger : Option TriggerKind
  action : Action
  status : ActionStatus
  /-- The ledger's id of the transaction, for amounts that reached it. -/
  transactionId : Option String
deriving DecidableEq, Repr

/-- The results of a batch. -/
structure ActionLog where
  executedAt : Instant
  results : List ActionResult
deriving DecidableEq, Repr

instance : Document ActionStatus where
  encode
    | .success => .obj [("outcome", .str "success")]
    | .failed reason retriable =>
      .obj [("outcome", .str "failed"), ("reason", .str reason), ("retriable", .bool retriable)]
    | .skipped reason => .obj [("outcome", .str "skipped"), ("reason", .str reason)]
  read? := Document.tagged "outcome" [
    ("success", pure .success),
    ("failed", return .failed (← Document.required "reason") (← Document.required "retriable")),
    ("skipped", .skipped <$> Document.required "reason")]

instance : Document ActionResult where
  encode r :=
    let id := match r.transactionId with
      | none => []
      | some id => [("transaction_id", Json.str id)]
    .obj ([("action", encode r.action), ("status", encode r.status)] ++ id
      ++ [("trigger", encode r.trigger)])
  read? := Document.record do
    return {
      trigger := ← Document.optional "trigger"
      action := ← Document.required "action"
      status := ← Document.required "status"
      transactionId := ← Document.defaulted "transaction_id" none }

instance : Document ActionLog where
  encode l := .obj [("executed_at", encode l.executedAt), ("results", encode l.results)]
  read? := Document.record do
    return ⟨← Document.required "executed_at", ← Document.required "results"⟩

namespace ActionLog

/-- The log with another batch appended. -/
def append (l other : ActionLog) : ActionLog := { l with results := l.results ++ other.results }

/-- Whether nothing was asked for. -/
def isEmpty (l : ActionLog) : Bool := l.results.isEmpty

/-- The actions in the order of their execution. -/
def actions (l : ActionLog) : List Action := l.results.map (·.action)

/-- The number of results whose status has a property. -/
def countStatus (l : ActionLog) (p : ActionStatus → Bool) : Nat :=
  l.results.countP fun r => p r.status

/-- The number of actions that succeeded. -/
def successCount (l : ActionLog) : Nat :=
  l.countStatus fun
    | .success => true
    | _ => false

/-- The number of actions that failed. -/
def failureCount (l : ActionLog) : Nat :=
  l.countStatus fun
    | .failed _ _ => true
    | _ => false

/-- The number of actions that were skipped. -/
def skippedCount (l : ActionLog) : Nat :=
  l.countStatus fun
    | .skipped _ => true
    | _ => false

end ActionLog

end RitualLedger
