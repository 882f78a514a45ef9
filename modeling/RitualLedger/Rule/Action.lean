import RitualLedger.Document

/-!
# Actions

What happens when a condition's test passes: tokens are credited or debited, a task is unlocked, or
a message is queued. An action is tagged by its type, and each type carries only what it needs.
-/

namespace RitualLedger

/-- An effect on the subject of a ritual. -/
inductive Action where
  /-- Credits the subject. -/
  | reward (amount : UInt64)
  /-- Debits the subject, who must cover the amount. -/
  | penalty (amount : UInt64)
  /-- Adds a task to the subject's unlocked tasks. -/
  | unlockTask (index : UInt64)
  /-- Queues a message for the subject. -/
  | notify (message : String)
deriving DecidableEq, Repr

namespace Action

/-- The tag of an action. -/
def typeName : Action → String
  | .reward _ => "reward"
  | .penalty _ => "penalty"
  | .unlockTask _ => "unlock_task"
  | .notify _ => "notify"

/-- What the action does, in words. Tasks are counted from one. -/
def description : Action → String
  | .reward amount => s!"Reward {amount} tokens"
  | .penalty amount => s!"Deduct {amount} tokens"
  | .unlockTask index => "Unlock task #" ++ toString (index + 1)
  | .notify message => s!"Notify: {message}"

instance : Document Action where
  encode
    | .reward amount => .obj [("amount", encode amount), ("type", .str "reward")]
    | .penalty amount => .obj [("amount", encode amount), ("type", .str "penalty")]
    | .unlockTask index => .obj [("task_index", encode index), ("type", .str "unlock_task")]
    | .notify message => .obj [("message", .str message), ("type", .str "notify")]
  read? :=
    let amount := Document.required "amount"
    let message := Document.required "message"
    Document.tagged "type" [
      ("reward", .reward <$> amount), ("penalty", .penalty <$> amount),
      ("unlock_task", .unlockTask <$> Document.required "task_index"),
      ("notify", .notify <$> message), ("notification", .notify <$> message)]

end Action

end RitualLedger
