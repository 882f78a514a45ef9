import RitualLedger.Completion.Basic
import RitualLedger.Ritual.Catalog

/-!
# Completing tasks

A subject works through a ritual one step at a time: an accepted completion of the current task
moves ritual and assignment to the next one, and records the step and the evidence, all in one
transaction. A submission for any other task is stale, also when it has lost a race.

The rewards and actions of a step follow its commit, each in the scope of the step. So a completion
that was cut short is finished by a replay, which applies what is missing and nothing twice. What
fails among them is recorded in the outcome and does not undo the step.
-/

namespace RitualLedger.Completion

/-! ## Taking a step -/

/-- Why a submission for a step is stale: the assignment is over or at another task. -/
def staleness? (s : Step) (a : Assignment) : Option EngineError :=
  if a.isComplete ∨ a.currentTaskIndex ≠ s.index then
    some (.staleTask s.ritual s.index.toNat a.currentTaskIndex.toNat)
  else none

/-- The task of a step in its ritual. -/
def taskOf (s : Step) (r : Ritual) : Except EngineError Task :=
  match r.task? s.index with
  | some task => .ok task
  | none => .error (.validation (.outOfBounds "tasks" s.index.toNat r.tasks.length))

/-- The task of a step if it is current and takes the evidence. -/
def accept (s : Step) (evidence : Evidence) (r : Ritual) (a : Assignment) :
    Except EngineError Task :=
  match staleness? s a with
  | some e => .error e
  | none => do
    let task ← taskOf s r
    if task.evidenceKind.accepts evidence then .ok task
    else .error (.validation (.invalidValue "evidence"
      s!"task {s.index} does not accept this kind of evidence"))

/-- The documents that a step depends on. -/
def stepKeys (s : Step) (taskId : String) : List DocKey :=
  [Ritual.key s.ritual, Assignment.key s.subject, s.key, evidenceKey taskId s.subject]

/-- The record of a step. -/
def recordOf (s : Step) (r : Ritual) (task : Task) (now : Instant) : CompletionRecord where
  ritualId := s.ritual
  subjectId := s.subject
  taskIndex := s.index
  taskId := task.id
  tokenReward := task.tokenReward
  nextTaskIndex := s.index + 1
  ritualCompleted := r.tasks.length ≤ (s.index + 1).toNat
  completedAt := now

/-- The evidence of a step as a record. -/
def evidenceOf (s : Step) (task : Task) (evidence : Evidence) (now : Instant) : EvidenceRecord where
  taskId := task.id
  subjectId := s.subject
  ritualId := s.ritual
  evidence := evidence
  submittedAt := now

/-- The status of a ritual after the step of a record. -/
def statusAfter (c : CompletionRecord) : RitualStatus :=
  if c.ritualCompleted then .completed else .active

/-- The ritual after the step of a record. -/
def advance (r : Ritual) (c : CompletionRecord) : Ritual :=
  { r with
    tasks := r.tasks.modify c.taskIndex.toNat fun t =>
      { t with status := .completed, completedAt := some c.completedAt }
    currentTaskIndex := c.nextTaskIndex
    status := statusAfter c }

/-- The assignment after the step of a record. -/
def advanceAssignment (a : Assignment) (c : CompletionRecord) : Assignment :=
  { a with
    currentTaskIndex := c.nextTaskIndex
    status := statusAfter c
    lastUpdated := c.completedAt }

/-- The ritual of a step as an attempt has read it. -/
def ritualIn (snapshot : Snapshot) (ritual : String) : Except EngineError Ritual := do
  match ← snapshot.get (Ritual.key ritual) with
  | some r => .ok r
  | none => .error (.notFound .ritual ritual)

/-- What a step writes, given what was read. -/
def decide (s : Step) (taskId : String) (evidence : Evidence) (now : Instant)
    (snapshot : Snapshot) : Except EngineError (Plan CompletionRecord) := do
  let r ← ritualIn snapshot s.ritual
  let a ← Action.assignmentIn snapshot s.ritual s.subject
  match staleness? s a with
  | some e => .error e
  | none =>
    if snapshot.has s.key then
      .error (.staleTask s.ritual s.index.toNat a.currentTaskIndex.toNat)
    else
      let task ← taskOf s r
      let c := recordOf s r task now
      .ok <|
        (Plan.done c).put (Ritual.key s.ritual) (advance r c)
          |>.put (Assignment.key s.subject) (advanceAssignment a c)
          |>.insert s.key c
          |>.insert (evidenceKey taskId s.subject) (evidenceOf s task evidence now)

/-- The subject's assignment to the ritual of a step. -/
def assignmentOf (s : Step) : Operation Assignment := do
  match ← Assignment.find? s.subject with
  | some a =>
    if a.ritualId = s.ritual then pure a else Operation.notFound .assignment s.subject
  | none => Operation.notFound .assignment s.subject

/-- Takes a step: checks the submission and commits it. -/
def takeStep (policy : RetryPolicy) (s : Step) (evidence : Evidence) :
    Operation CompletionRecord := do
  let r ← Ritual.get s.ritual
  let a ← assignmentOf s
  let task ← Operation.ofExcept (accept s evidence r a)
  let now ← (Request.now : Program _)
  transact policy (stepKeys s task.id) (decide s task.id evidence now)

/-! ## What follows a step -/

/-- Applies the reward of the task, if there is one. -/
def payReward (policy : RetryPolicy) (c : CompletionRecord) : Program (Option ActionResult) :=
  if c.tokenReward = 0 then pure none
  else do
    let batch : Batch := ⟨c.ritualId, c.subjectId, none, some (.reward c.step)⟩
    let log ← batch.run policy [.reward c.tokenReward]
    pure log.results.head?

/-- Applies the actions that a trigger asks for, in a scope. -/
def fire (policy : RetryPolicy) (c : CompletionRecord) (t : Trigger) (scope : Scope) :
    Operation ActionLog := do
  let actions ← Ritual.evaluate c.ritualId t
  let batch : Batch := ⟨c.ritualId, c.subjectId, some t.kind, some scope⟩
  (batch.run policy actions : Program _)

/-- Applies the rewards and actions of a recorded step. -/
def followUp (policy : RetryPolicy) (c : CompletionRecord) : Operation CompletionOutcome := do
  let baseReward ← (payReward policy c : Program _)
  let log ← fire policy c (.completion c.taskIndex) (.completion c.step)
  let log ←
    if c.ritualCompleted then do
      let last ← fire policy c .ritualCompletion (.ritualCompletion c.step)
      pure (log.append last)
    else pure log
  pure {
    ritualId := c.ritualId
    subjectId := c.subjectId
    taskIndex := c.taskIndex
    nextTaskIndex := c.nextTaskIndex
    isComplete := c.ritualCompleted
    baseReward := baseReward
    actionsExecuted := log }

/-- Completes the current task of a subject. -/
def complete (policy : RetryPolicy) (s : Step) (evidence : Evidence) :
    Operation CompletionOutcome := do
  let c ← takeStep policy s evidence
  followUp policy c

/-- The record of a step, if it was taken. -/
def find? (s : Step) : Operation (Option CompletionRecord) := readDocument? s.key

/-- Applies again what follows a step that was taken. -/
def replay (policy : RetryPolicy) (s : Step) : Operation CompletionOutcome := do
  match ← find? s with
  | none => Operation.notFound .completion s.id
  | some c => followUp policy c

end RitualLedger.Completion
