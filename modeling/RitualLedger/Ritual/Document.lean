import RitualLedger.Json.Parser
import RitualLedger.Ritual.Basic

/-!
# Rituals as documents

The encodings of rituals, their parts and their definitions.
-/

namespace RitualLedger

instance : Document RitualStatus where
  encode
    | .active => .str "active"
    | .completed => .str "completed"
  read? := Document.oneOf [("active", .active), ("completed", .completed)]

instance : Document TaskStatus where
  encode
    | .pending => .str "pending"
    | .completed => .str "completed"
  read? := Document.oneOf [("pending", .pending), ("completed", .completed)]

instance : Document EvidenceKind where
  encode
    | .text => .str "text"
    | .photo => .str "photo"
    | .any => .str "any"
  read? := Document.oneOf [("text", .text), ("photo", .photo), ("any", .any)]

instance : Document Evidence where
  encode
    | .text content => .obj [("content", .str content), ("kind", .str "text")]
    | .photo content => .obj [("content", .str content), ("kind", .str "photo")]
  read? := Document.tagged "kind" [
    ("text", .text <$> Document.required "content"),
    ("photo", .photo <$> Document.required "content")]

instance : Document Task where
  encode t := .obj [
    ("completed_at", encode t.completedAt), ("description", .str t.description),
    ("evidence_kind", encode t.evidenceKind), ("id", .str t.id), ("order", encode t.order),
    ("status", encode t.status), ("title", .str t.title),
    ("token_reward", encode t.tokenReward)]
  read? := Document.record do
    return {
      id := ← Document.required "id"
      order := ← Document.required "order"
      title := ← Document.required "title"
      description := ← Document.defaulted "description" ""
      evidenceKind := ← Document.defaulted "evidence_kind" .any
      tokenReward := ← Document.defaulted "token_reward" 0
      status := ← Document.required "status"
      completedAt := ← Document.defaulted "completed_at" none }

instance : Document Ritual where
  encode r := .obj [
    ("conditions", encode r.conditions), ("created_at", encode r.createdAt),
    ("current_task_index", encode r.currentTaskIndex), ("description", .str r.description),
    ("id", .str r.id), ("owner_id", .str r.ownerId), ("status", encode r.status),
    ("subject_id", .str r.subjectId), ("tasks", encode r.tasks), ("title", .str r.title)]
  read? := Document.record do
    return {
      id := ← Document.required "id"
      ownerId := ← Document.required "owner_id"
      subjectId := ← Document.required "subject_id"
      title := ← Document.required "title"
      description := ← Document.defaulted "description" ""
      status := ← Document.required "status"
      currentTaskIndex := ← Document.required "current_task_index"
      conditions := ← Document.defaulted "conditions" []
      tasks := ← Document.required "tasks"
      createdAt := ← Document.required "created_at" }

instance : Document Assignment where
  encode a := .obj [
    ("current_task_index", encode a.currentTaskIndex), ("last_updated", encode a.lastUpdated),
    ("owner_id", .str a.ownerId), ("ritual_id", .str a.ritualId),
    ("started_at", encode a.startedAt), ("status", encode a.status),
    ("subject_id", .str a.subjectId), ("unlocked_tasks", encode a.unlockedTasks)]
  read? := Document.record do
    return {
      ritualId := ← Document.required "ritual_id"
      subjectId := ← Document.required "subject_id"
      ownerId := ← Document.required "owner_id"
      currentTaskIndex := ← Document.required "current_task_index"
      status := ← Document.required "status"
      unlockedTasks := ← Document.defaulted "unlocked_tasks" TaskSet.empty
      startedAt := ← Document.required "started_at"
      lastUpdated := ← Document.required "last_updated" }

instance : Document TaskDefinition where
  encode t := .obj [
    ("description", .str t.description), ("evidence_kind", encode t.evidenceKind),
    ("title", .str t.title), ("token_reward", encode t.tokenReward)]
  read? := Document.record do
    return {
      title := ← Document.required "title"
      description := ← Document.defaulted "description" ""
      evidenceKind := ← Document.defaulted "evidence_kind" .any
      tokenReward := ← Document.defaulted "token_reward" 0 }

instance : Document Definition where
  encode d := .obj [
    ("conditions", encode d.conditions), ("description", .str d.description),
    ("owner_id", .str d.ownerId), ("subject_id", .str d.subjectId), ("tasks", encode d.tasks),
    ("title", .str d.title)]
  read? := Document.record do
    return {
      ownerId := ← Document.required "owner_id"
      subjectId := ← Document.required "subject_id"
      title := ← Document.required "title"
      description := ← Document.defaulted "description" ""
      tasks := ← Document.required "tasks"
      conditions := ← Document.defaulted "conditions" [] }

/-- What is wanted of the text of a definition: the parts of the definition, of its tasks and of its
conditions, and the actions as a whole. -/
def Definition.shape : Json.Shape :=
  let task : Json.Shape := .record [("title", .whole), ("description", .whole),
    ("evidence_kind", .whole), ("token_reward", .whole)]
  let condition : Json.Shape := .record [("trigger", .whole), ("operator", .whole),
    ("comparand", .whole), ("actions", .whole)]
  .record [("owner_id", .whole), ("subject_id", .whole), ("title", .whole),
    ("description", .whole), ("tasks", .items task), ("conditions", .items condition)]

instance : Document Progress where
  encode p := .obj [("current", encode p.current), ("total", encode p.total)]
  read? := Document.record do
    return ⟨← Document.required "current", ← Document.required "total"⟩

instance : Document CurrentTask where
  encode c := .obj [("progress", encode c.progress), ("ritual", encode c.ritual),
    ("task", encode c.task), ("task_index", encode c.taskIndex)]
  read? := Document.record do
    return {
      ritual := ← Document.required "ritual"
      task := ← Document.required "task"
      taskIndex := ← Document.required "task_index"
      progress := ← Document.required "progress" }

end RitualLedger
