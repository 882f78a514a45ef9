import RitualLedger.Rule.Log

/-!
# Signals

Moods and streaks reported by a subject. A mood is always logged; both may fire conditions of the
ritual that the subject follows.
-/

namespace RitualLedger

/-- A logged mood. -/
structure MoodEntry where
  subjectId : String
  mood : String
  createdAt : Instant
deriving DecidableEq, Repr

/-- What a mood came to. -/
structure MoodOutcome where
  entryId : String
  /-- The ritual whose conditions were tested; none without an assignment. -/
  ritualId : Option String
  actionsExecuted : ActionLog
deriving DecidableEq, Repr

/-- What a streak came to. -/
structure StreakOutcome where
  count : UInt32
  /-- The ritual whose conditions were tested; none without an assignment. -/
  ritualId : Option String
  actionsExecuted : ActionLog
deriving DecidableEq, Repr

instance : Document MoodEntry where
  encode e := .obj [("created_at", encode e.createdAt), ("mood", .str e.mood),
    ("subject_id", .str e.subjectId)]
  read? := Document.record do
    return {
      subjectId := ← Document.required "subject_id"
      mood := ← Document.required "mood"
      createdAt := ← Document.required "created_at" }

instance : Document MoodOutcome where
  encode o := .obj [("actions_executed", encode o.actionsExecuted), ("entry_id", .str o.entryId),
    ("ritual_id", encode o.ritualId)]
  read? := Document.record do
    return {
      entryId := ← Document.required "entry_id"
      ritualId := ← Document.optional "ritual_id"
      actionsExecuted := ← Document.required "actions_executed" }

instance : Document StreakOutcome where
  encode o := .obj [("actions_executed", encode o.actionsExecuted), ("count", encode o.count),
    ("ritual_id", encode o.ritualId)]
  read? := Document.record do
    return {
      count := ← Document.required "count"
      ritualId := ← Document.optional "ritual_id"
      actionsExecuted := ← Document.required "actions_executed" }

end RitualLedger
