import RitualLedger.Ritual.Catalog
import RitualLedger.Signal.Basic
import RitualLedger.Text.Blank

/-!
# Taking in moods and streaks

A mood is logged before anything else happens. Then the conditions of the ritual that the subject
follows are tested, and their actions run in a scope of the new entry. The actions of a streak run
in a scope of ritual, subject and length, so that reporting it twice applies them once.

A mood prompt asks a subject for a mood. The next reply takes the prompt and is logged; a reply
without a live prompt is left alone.
-/

namespace RitualLedger

namespace Signal

/-- The actions that were executed for a signal, and in which ritual. -/
structure Response where
  ritualId : Option String
  actionsExecuted : ActionLog

/-- Fires a trigger on the ritual that a subject follows, in a scope that may depend on it. -/
def fire (policy : RetryPolicy) (subject : String) (t : Trigger) (scope : String → Scope) :
    Operation Response := do
  match ← Assignment.find? subject with
  | none =>
    let now ← (Request.now : Program _)
    pure ⟨none, ⟨now, []⟩⟩
  | some a =>
    let actions ← Ritual.evaluate a.ritualId t
    let batch : Batch := ⟨a.ritualId, subject, some t.kind, some (scope a.ritualId)⟩
    let log ← (batch.run policy actions : Program _)
    pure ⟨some a.ritualId, log⟩

end Signal

/-! ## Moods -/

namespace Mood

/-- A mood without the blanks around it, which must leave something. -/
def read (text : String) : Except ValidationError String :=
  if Text.isBlank text then .error (.invalidValue "mood" "must not be empty")
  else .ok (Text.trim text)

/-- Logs a mood and fires it on the ritual that the subject follows. -/
def log (policy : RetryPolicy) (subject text : String) : Operation MoodOutcome := do
  let mood ← Operation.ofValidation (read text)
  let now ← (Request.now : Program _)
  let entry : MoodEntry := ⟨subject, mood, now⟩
  let id ← (Request.append Collection.moods.name (encode entry) : Program _)
  let response ← Signal.fire policy subject (.mood mood) fun _ => .mood id
  pure ⟨id, response.ritualId, response.actionsExecuted⟩

/-- Asks a subject for a mood. -/
def ask (subject : String) : Operation MoodPrompt := do
  let now ← (Request.now : Program _)
  let prompt : MoodPrompt := ⟨subject, now⟩
  (Request.openPrompt prompt : Program _)
  pure prompt

/-- Logs the reply to a live prompt; none when the subject was not asked. -/
def reply (policy : RetryPolicy) (subject text : String) : Operation (Option MoodOutcome) := do
  match ← (Request.takePrompt subject : Program _) with
  | none => pure none
  | some _ => some <$> log policy subject text

end Mood

/-! ## Streaks -/

/-- Fires a streak on the ritual that the subject follows. -/
def Streak.report (policy : RetryPolicy) (subject : String) (count : UInt32) :
    Operation StreakOutcome := do
  let response ← Signal.fire policy subject (.streak count) fun ritual =>
    .streak ritual subject count
  pure ⟨count, response.ritualId, response.actionsExecuted⟩

end RitualLedger
