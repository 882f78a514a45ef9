import RitualLedger.Engine.Transaction

/-!
# Notifications

Messages for subjects wait in a queue until they are read. A message may come with an id of its
own; a second message under the same id changes nothing. A notification is never removed; it only
goes from unread to read.
-/

namespace RitualLedger

/-- A message for a subject about a ritual. -/
structure Notification where
  id : String
  subjectId : String
  message : String
  relatedTo : String
  relatedId : String
  createdAt : Instant
  read : Bool
deriving DecidableEq, Repr

namespace Notification

instance : Document Notification where
  encode n := .obj [
    ("created_at", encode n.createdAt), ("id", .str n.id), ("message", .str n.message),
    ("read", .bool n.read), ("related_id", .str n.relatedId), ("related_to", .str n.relatedTo),
    ("subject_id", .str n.subjectId)]
  read? := Document.record do
    return {
      id := ← Document.required "id"
      subjectId := ← Document.required "subject_id"
      message := ← Document.required "message"
      relatedTo := ← Document.required "related_to"
      relatedId := ← Document.required "related_id"
      createdAt := ← Document.required "created_at"
      read := ← Document.required "read" }

/-- The document of a notification. -/
def key (id : String) : DocKey := Collection.notifications.key id

/-- What queueing came to: the id, and whether it was taken before. -/
structure Queued where
  id : String
  replayed : Bool
deriving DecidableEq, Repr

/-- An unread notification about a ritual. -/
def about (ritual subject message id : String) (now : Instant) : Notification where
  id := id
  subjectId := subject
  message := message
  relatedTo := "ritual"
  relatedId := ritual
  createdAt := now
  read := false

/-- Queues a message under an id, or under a fresh one. -/
def enqueue (policy : RetryPolicy) (subject message ritual : String) (id : Option String) :
    Operation Queued := do
  let id ← match id with
    | some id => pure id
    | none => (Request.freshId : Program _)
  let now ← (Request.now : Program _)
  transact policy [key id] fun snapshot =>
    if snapshot.has (key id) then .ok (.done ⟨id, true⟩)
    else .ok ((Plan.done ⟨id, false⟩).insert (key id) (about ritual subject message id now))

/-- The query for the unread notifications of a subject. -/
def pendingQuery (subject : String) : Query where
  collection := Collection.notifications.name
  filter := some (.all [.eq "subject_id" (.str subject), .eq "read" (.bool false)])
  newestFirst := false
  limit := none

/-- The unread notifications of a subject, oldest first. -/
def pending (subject : String) : Operation (List Notification) :=
  queryDocuments (pendingQuery subject)

/-- Marks a notification as read. -/
def markRead (policy : RetryPolicy) (id : String) : Operation Notification :=
  transact policy [key id] fun snapshot => do
    match ← snapshot.get (α := Notification) (key id) with
    | none => .error (.notFound .notification id)
    | some n =>
      if n.read then .ok (.done n)
      else
        let marked := { n with read := true }
        .ok ((Plan.done marked).put (key id) marked)

end Notification

end RitualLedger
