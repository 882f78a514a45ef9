import RitualLedger.Ledger.Basic
import RitualLedger.Notification
import RitualLedger.Ritual.Document
import RitualLedger.Rule.Log
import RitualLedger.Rule.Scope

/-!
# Execution of actions

An action acts on a subject within a ritual: amounts go through the ledger, messages into the queue
of notifications, and an unlocked task into the subject's assignment. A batch executes actions in
order. An action that fails is recorded and the batch goes on, and nothing that was applied before
is taken back. Under a scope, an action that has been applied already is skipped.
-/

namespace RitualLedger

/-- The document of a subject's assignment. -/
def Assignment.key (subject : String) : DocKey := Collection.assignments.key subject

/-- What an action has changed. -/
inductive ActionEffect where
  | booked (receipt : Receipt)
  | unlocked (index : UInt64) (newly : Bool)
  | queued (notification : Notification.Queued)
deriving DecidableEq, Repr

namespace ActionEffect

/-- Whether the ledger or the queue had taken the action before. -/
def replayed : ActionEffect → Bool
  | .booked receipt => receipt.replayed
  | .unlocked _ _ => false
  | .queued notification => notification.replayed

/-- The transaction of an amount. -/
def transactionId : ActionEffect → Option String
  | .booked receipt => some receipt.transactionId
  | _ => none

end ActionEffect

namespace Action

/-- The subject's assignment to a ritual, as an attempt has read it. -/
def assignmentIn (snapshot : Snapshot) (ritual subject : String) :
    Except EngineError Assignment := do
  match ← snapshot.get (α := Assignment) (Assignment.key subject) with
  | some a => if a.ritualId = ritual then .ok a else .error (.notFound .assignment subject)
  | none => .error (.notFound .assignment subject)

/-- Adds a task to the unlocked tasks of a subject. -/
def unlock (policy : RetryPolicy) (ritual subject : String) (index : UInt64) :
    Operation ActionEffect := do
  let now ← (Request.now : Program _)
  transact policy [Assignment.key subject] fun snapshot => do
    let a ← assignmentIn snapshot ritual subject
    if a.unlockedTasks.contains index then .ok (.done (.unlocked index false))
    else
      let unlocked := { a with unlockedTasks := a.unlockedTasks.insert index, lastUpdated := now }
      .ok ((Plan.done (.unlocked index true)).put (Assignment.key subject) unlocked)

/-- An amount as a request to the ledger. -/
def booking (a : Action) (kind : TransactionKind) (sender receiver : Option String)
    (amount : UInt64) (ritual : String) (key : Option String) : TransactionRequest :=
  { TransactionRequest.plain kind sender receiver amount with
    description := some a.description
    relatedEntityType := some "ritual"
    relatedEntityId := some ritual
    key := key }

/-- Applies an action to a subject, under a key if there is one. -/
def execute (policy : RetryPolicy) (a : Action) (ritual subject : String) (key : Option String) :
    Operation ActionEffect :=
  match a with
  | .reward amount =>
    .booked <$> Ledger.apply policy (a.booking .reward none (some subject) amount ritual key)
  | .penalty amount =>
    .booked <$> Ledger.apply policy (a.booking .penalty (some subject) none amount ritual key)
  | .unlockTask index => unlock policy ritual subject index
  | .notify message => .queued <$> Notification.enqueue policy subject message ritual key

end Action

/-- Where actions run: for whom, on what trigger, and in what scope. -/
structure Batch where
  ritual : String
  subject : String
  /-- Recorded with every result. -/
  trigger : Option TriggerKind
  scope : Option Scope
deriving DecidableEq, Repr

namespace Batch

/-- The key of the action at a position. -/
def key (b : Batch) (position : Nat) : Option String := b.scope.map (·.key position)

/-- The result of an action, from the answer to its execution. -/
def result (b : Batch) (a : Action) (answer : Except EngineError ActionEffect) : ActionResult :=
  match answer with
  | .ok effect =>
    let status := if effect.replayed then .skipped "already applied" else .success
    ⟨b.trigger, a, status, effect.transactionId⟩
  | .error e => ⟨b.trigger, a, .failed e.message e.isRetriable, none⟩

/-- Executes actions from a position on. -/
def runFrom (policy : RetryPolicy) (b : Batch) : Nat → List Action → Program (List ActionResult)
  | _, [] => pure []
  | position, a :: rest => do
    let answer ← (a.execute policy b.ritual b.subject (b.key position)).program
    let results ← runFrom policy b (position + 1) rest
    pure (b.result a answer :: results)

/-- Executes actions in order. -/
def run (policy : RetryPolicy) (b : Batch) (actions : List Action) : Program ActionLog := do
  let results ← b.runFrom policy 0 actions
  let now ← Request.now
  pure ⟨now, results⟩

/-- Logs actions without executing them. -/
def rehearse (b : Batch) (actions : List Action) : Program ActionLog := do
  let now ← Request.now
  pure ⟨now, actions.map fun a => ⟨b.trigger, a, .skipped "dry-run mode", none⟩⟩

end Batch

end RitualLedger
