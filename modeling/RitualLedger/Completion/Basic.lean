import RitualLedger.Ritual.Document
import RitualLedger.Ritual.Step
import RitualLedger.Rule.Log

/-!
# Records of completed tasks

When a subject completes a task, the step and the evidence are recorded once and for all. The
record holds all that the rewards and actions depend on, so that they can be applied again later.
-/

namespace RitualLedger

/-- The record that a step was taken. -/
structure CompletionRecord where
  ritualId : String
  subjectId : String
  taskIndex : UInt64
  taskId : String
  tokenReward : UInt64
  nextTaskIndex : UInt64
  /-- The step was the last one of its ritual. -/
  ritualCompleted : Bool
  completedAt : Instant
deriving DecidableEq, Repr

/-- The step that a record is about. -/
def CompletionRecord.step (r : CompletionRecord) : Step := ⟨r.ritualId, r.subjectId, r.taskIndex⟩

/-- The evidence of a step. -/
structure EvidenceRecord where
  taskId : String
  subjectId : String
  ritualId : String
  evidence : Evidence
  submittedAt : Instant
deriving DecidableEq, Repr

/-- What the completion of a task came to. -/
structure CompletionOutcome where
  ritualId : String
  subjectId : String
  taskIndex : UInt64
  nextTaskIndex : UInt64
  /-- The ritual is over. -/
  isComplete : Bool
  /-- The reward of the task itself, if it has one. -/
  baseReward : Option ActionResult
  /-- The actions of the conditions that fired. -/
  actionsExecuted : ActionLog
deriving DecidableEq, Repr

instance : Document CompletionRecord where
  encode r := .obj [
    ("completed_at", encode r.completedAt), ("next_task_index", encode r.nextTaskIndex),
    ("ritual_completed", .bool r.ritualCompleted), ("ritual_id", .str r.ritualId),
    ("subject_id", .str r.subjectId), ("task_id", .str r.taskId),
    ("task_index", encode r.taskIndex), ("token_reward", encode r.tokenReward)]
  read? := Document.record do
    return {
      ritualId := ← Document.required "ritual_id"
      subjectId := ← Document.required "subject_id"
      taskIndex := ← Document.required "task_index"
      taskId := ← Document.required "task_id"
      tokenReward := ← Document.required "token_reward"
      nextTaskIndex := ← Document.required "next_task_index"
      ritualCompleted := ← Document.required "ritual_completed"
      completedAt := ← Document.required "completed_at" }

instance : Document EvidenceRecord where
  encode r := .obj [("evidence", encode r.evidence), ("ritual_id", .str r.ritualId),
    ("subject_id", .str r.subjectId), ("submitted_at", encode r.submittedAt),
    ("task_id", .str r.taskId)]
  read? := Document.record do
    return {
      taskId := ← Document.required "task_id"
      subjectId := ← Document.required "subject_id"
      ritualId := ← Document.required "ritual_id"
      evidence := ← Document.required "evidence"
      submittedAt := ← Document.required "submitted_at" }

instance : Document CompletionOutcome where
  encode o := .obj [
    ("actions_executed", encode o.actionsExecuted), ("base_reward", encode o.baseReward),
    ("is_complete", .bool o.isComplete), ("next_task_index", encode o.nextTaskIndex),
    ("ritual_id", .str o.ritualId), ("subject_id", .str o.subjectId),
    ("task_index", encode o.taskIndex)]
  read? := Document.record do
    return {
      ritualId := ← Document.required "ritual_id"
      subjectId := ← Document.required "subject_id"
      taskIndex := ← Document.required "task_index"
      nextTaskIndex := ← Document.required "next_task_index"
      isComplete := ← Document.required "is_complete"
      baseReward := ← Document.optional "base_reward"
      actionsExecuted := ← Document.required "actions_executed" }

end RitualLedger
