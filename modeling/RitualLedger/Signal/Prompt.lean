import RitualLedger.Document

/-!
# Mood prompts

A question for a subject's mood that has not been answered yet.
-/

namespace RitualLedger

/-- An open question for a mood. -/
structure MoodPrompt where
  subjectId : String
  askedAt : Instant
deriving DecidableEq, Repr

instance : Document MoodPrompt where
  encode p := .obj [("asked_at", encode p.askedAt), ("subject_id", .str p.subjectId)]
  read? := Document.record do
    return ⟨← Document.required "subject_id", ← Document.required "asked_at"⟩

end RitualLedger
