import RitualLedger.Rule.Condition
import RitualLedger.Ritual.TaskSet

/-!
# Rituals, tasks and assignments

A ritual is a list of tasks that an owner gives to a subject, with the conditions that fire while
the subject works through it. It points to its current task; behind the last task it is completed.
The subject's assignment repeats the pointer and the status, and holds the unlocked tasks.

A definition is what a ritual is created from. `Definition.validate` accepts the well-formed ones
and reports the first rule that a definition breaks, in the order of its fields.
-/

namespace RitualLedger

/-- Whether a ritual, or the subject's work on it, is over. -/
inductive RitualStatus where
  | active
  | completed
deriving DecidableEq, Repr

/-- Whether a task is done. -/
inductive TaskStatus where
  | pending
  | completed
deriving DecidableEq, Repr

/-- What a task takes as proof that it was done. -/
inductive EvidenceKind where
  | text
  | photo
  | any
deriving DecidableEq, Repr

/-- The proof handed in with a completed task; of a photo, the place where it is kept. -/
inductive Evidence where
  | text (content : String)
  | photo (content : String)
deriving DecidableEq, Repr

/-- Whether a task of this kind takes the evidence. -/
def EvidenceKind.accepts : EvidenceKind → Evidence → Bool
  | .any, _ => true
  | .text, .text _ => true
  | .photo, .photo _ => true
  | _, _ => false

/-- What the evidence says, or where it is. -/
def Evidence.content : Evidence → String
  | .text content => content
  | .photo content => content

/-- A step of a ritual. -/
structure Task where
  id : String
  /-- The place in the ritual. -/
  order : UInt64
  title : String
  description : String
  evidenceKind : EvidenceKind
  tokenReward : UInt64
  status : TaskStatus
  completedAt : Option Instant
deriving DecidableEq, Repr

/-- Tasks in order, with conditions, given by an owner to a subject. -/
structure Ritual where
  id : String
  ownerId : String
  subjectId : String
  title : String
  description : String
  status : RitualStatus
  currentTaskIndex : UInt64
  conditions : List Condition
  tasks : List Task
  createdAt : Instant
deriving DecidableEq, Repr

/-- The task at an index. -/
def Ritual.task? (r : Ritual) (index : UInt64) : Option Task := r.tasks[index.toNat]?

/-- A subject's pointer into the ritual that the subject follows. -/
structure Assignment where
  ritualId : String
  subjectId : String
  ownerId : String
  currentTaskIndex : UInt64
  status : RitualStatus
  unlockedTasks : TaskSet
  startedAt : Instant
  lastUpdated : Instant

/-- Whether the subject has finished the ritual. -/
def Assignment.isComplete (a : Assignment) : Bool := a.status == .completed

/-! ## Definitions -/

/-- A task as a definition gives it. -/
structure TaskDefinition where
  title : String
  description : String
  evidenceKind : EvidenceKind
  tokenReward : UInt64
deriving DecidableEq, Repr

/-- What a ritual is created from. -/
structure Definition where
  ownerId : String
  subjectId : String
  title : String
  description : String
  tasks : List TaskDefinition
  conditions : List Condition
deriving DecidableEq, Repr

namespace Definition

/-- Refuses a blank text in a field. -/
def requireText (field text : String) : Except ValidationError Unit :=
  if Text.isBlank text then .error (.invalidValue field "must not be empty") else .ok ()

/-- Accepts a task, given its place. -/
def validateTask (index : Nat) (t : TaskDefinition) : Except ValidationError Unit :=
  if Text.isBlank t.title then
    .error (.invalidValue "tasks" s!"task {index} has an empty title")
  else if Condition.largestAmount < t.tokenReward.toNat then
    .error (.invalidValue "tasks" s!"task {index} reward {t.tokenReward} is too large")
  else .ok ()

/-- Accepts tasks from a place on. -/
def validateTasks : Nat → List TaskDefinition → Except ValidationError Unit
  | _, [] => .ok ()
  | index, t :: rest => do
    validateTask index t
    validateTasks (index + 1) rest

/-- Accepts conditions from a place on. -/
def validateConditions (taskCount : Nat) : Nat → List Condition → Except ValidationError Unit
  | _, [] => .ok ()
  | index, c :: rest => do
    c.validate index taskCount
    validateConditions taskCount (index + 1) rest

/-- Accepts a definition. -/
def validate (d : Definition) : Except ValidationError Unit := do
  requireText "owner_id" d.ownerId
  requireText "subject_id" d.subjectId
  requireText "title" d.title
  if d.tasks.isEmpty then throw (.emptyCollection "tasks")
  validateTasks 0 d.tasks
  validateConditions d.tasks.length 0 d.conditions

end Definition

/-! ## Progress -/

/-- How far a subject is: the current task, counted from one, and the number of tasks. -/
structure Progress where
  current : UInt64
  total : UInt64
deriving DecidableEq, Repr

/-- The task that a subject should do next. -/
structure CurrentTask where
  ritual : Ritual
  task : Task
  taskIndex : UInt64
  progress : Progress
deriving DecidableEq, Repr

end RitualLedger
