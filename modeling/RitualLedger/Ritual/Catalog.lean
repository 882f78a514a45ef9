import RitualLedger.Ledger.Basic
import RitualLedger.Rule.Execution

/-!
# The catalogue of rituals

A ritual is created from a definition together with the assignment of its subject, who follows one
ritual at a time, and an entry in the log of activities. Owner and subject must have accounts.
Rituals and assignments are looked up by id and by subject; the current task of a subject is the
one that its assignment points to.
-/

namespace RitualLedger

/-- An entry in the log of what owners did. -/
structure Activity where
  actorId : String
  action : String
  entityType : String
  entityId : String
  time : Instant
deriving DecidableEq, Repr

instance : Document Activity where
  encode a := .obj [("action", .str a.action), ("actor_id", .str a.actorId), ("at", encode a.time),
    ("entity_id", .str a.entityId), ("entity_type", .str a.entityType)]
  read? := Document.record do
    return {
      actorId := ← Document.required "actor_id"
      action := ← Document.required "action"
      entityType := ← Document.required "entity_type"
      entityId := ← Document.required "entity_id"
      time := ← Document.required "at" }

namespace Ritual

/-- The document of a ritual. -/
def key (id : String) : DocKey := Collection.rituals.key id

/-! ## Creation -/

/-- Draws an id for each task of a definition; the tasks are counted from a place on. -/
def drawTasks : Nat → List TaskDefinition → Program (List Task)
  | _, [] => pure []
  | order, t :: rest => do
    let id ← Request.freshId
    let tasks ← drawTasks (order + 1) rest
    pure (⟨id, UInt64.ofNat order, t.title, t.description, t.evidenceKind, t.tokenReward, .pending,
      none⟩ :: tasks)

/-- The ritual of a definition at its beginning. -/
def start (d : Definition) (id : String) (tasks : List Task) (now : Instant) : Ritual where
  id := id
  ownerId := d.ownerId
  subjectId := d.subjectId
  title := d.title
  description := d.description
  status := .active
  currentTaskIndex := 0
  conditions := d.conditions
  tasks := tasks
  createdAt := now

/-- The assignment of a ritual that begins now. -/
def firstAssignment (r : Ritual) (now : Instant) : Assignment where
  ritualId := r.id
  subjectId := r.subjectId
  ownerId := r.ownerId
  currentTaskIndex := 0
  status := .active
  unlockedTasks := TaskSet.empty
  startedAt := now
  lastUpdated := now

/-- The entry in the log of activities for a new ritual. -/
def creation (r : Ritual) (now : Instant) : Activity where
  actorId := r.ownerId
  action := "ritual_created"
  entityType := "ritual"
  entityId := r.id
  time := now

/-- The documents that the creation of a ritual depends on. -/
def creationKeys (r : Ritual) : List DocKey :=
  [key r.id, Assignment.key r.subjectId, Ledger.accountKey r.ownerId,
    Ledger.accountKey r.subjectId]

/-- What the creation of a ritual writes, given what was read. -/
def decideCreation (r : Ritual) (activity : String) (now : Instant) (snapshot : Snapshot) :
    Except EngineError (Plan Ritual) :=
  if !snapshot.has (Ledger.accountKey r.ownerId) then .error (.notFound .account r.ownerId)
  else if !snapshot.has (Ledger.accountKey r.subjectId) then
    .error (.notFound .account r.subjectId)
  else .ok <|
    (Plan.done r).insert (key r.id) r
      |>.put (Assignment.key r.subjectId) (firstAssignment r now)
      |>.insert (Collection.activities.key activity) (creation r now)

/-- Creates a ritual and assigns it to its subject, in place of an earlier one. -/
def create (policy : RetryPolicy) (d : Definition) : Operation Ritual := do
  Operation.ofValidation d.validate
  let now ← (Request.now : Program _)
  let id ← (Request.freshId : Program _)
  let tasks ← (drawTasks 0 d.tasks : Program _)
  let ritual := start d id tasks now
  let activity ← (Request.freshId : Program _)
  transact policy (creationKeys ritual) (decideCreation ritual activity now)

/-! ## Look-up -/

/-- The ritual of an id, if there is one. -/
def find? (id : String) : Operation (Option Ritual) := readDocument? (key id)

/-- The ritual of an id. -/
def get (id : String) : Operation Ritual := do
  match ← find? id with
  | some r => pure r
  | none => Operation.notFound .ritual id

/-- The actions that a trigger asks for in a ritual. -/
def evaluate (id : String) (t : Trigger) : Operation (List Action) := do
  let r ← get id
  pure (Condition.matchingActions r.conditions t)

end Ritual

namespace Assignment

/-- The assignment of a subject, if there is one. -/
def find? (subject : String) : Operation (Option Assignment) := readDocument? (key subject)

/-- The task that a subject should do next; none without an open assignment. -/
def currentTask? (subject : String) : Operation (Option CurrentTask) := do
  match ← find? subject with
  | none => pure none
  | some a =>
    if a.isComplete then pure none
    else
      let r ← Ritual.get a.ritualId
      match r.task? a.currentTaskIndex with
      | none => pure none
      | some task =>
        pure (some ⟨r, task, a.currentTaskIndex,
          ⟨a.currentTaskIndex + 1, UInt64.ofNat r.tasks.length⟩⟩)

end Assignment

end RitualLedger
