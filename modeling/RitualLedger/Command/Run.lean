import RitualLedger.Command.Basic
import RitualLedger.Completion.Operations
import RitualLedger.Engine.Opening
import RitualLedger.Json.Parser
import RitualLedger.Signal.Intake

/-!
# Running commands

Every command is a process of its own: it opens the engine on the files, runs one operation, and
keeps the documents. A command about the configuration does not open the engine. The answer of a
command is printed as JSON; a command that fails prints nothing else than the failure.
-/

namespace RitualLedger

/-! ## Commands to the engine -/

namespace EngineCommand

/-- Something that the engine does for a command. -/
abbrev Task (α : Type) := ExceptT CommandError Program α

/-- An operation as part of a command. -/
def perform {α : Type} (o : Operation α) : Task α := ExceptT.adapt .engine o

/-- A check as part of a command. -/
def check {α : Type} (r : Except CommandError α) : Task α := ExceptT.mk (pure r)

/-- Reads the definition of a ritual from a file; the extension tells its format. -/
def readDefinition (fs : Files) (path : String) : Except DefinitionFault Definition :=
  match fs.readText path with
  | .error fault => .error (.unreadable fault)
  | .ok text =>
    let isJson := (Path.extension? path).any fun e => e.toLower == "json"
    let parsed :=
      if isJson then (Json.parseAs? Definition.shape text).bind (Document.read? .json)
      else (Toml.document? text).bind (Document.read? .toml)
    match parsed with
    | some d => .ok d
    | none => .error .malformed

/-- The trigger of a spelling with a value. -/
def readTrigger (spelling value : String) : Except CommandError Trigger :=
  match TriggerKind.ofText spelling with
  | .completion => (Text.readWord value).mapError .number |>.map .completion
  | .mood => .ok (.mood value)
  | .streak => (Text.readHalfWord value).mapError .number |>.map .streak
  | .ritualCompletion => .ok .ritualCompletion
  | .other spelling => .error (.unknownTrigger spelling)

/-- The evidence of a text or a photo. -/
def evidence (text photo : Option String) : Except CommandError Evidence :=
  match text, photo with
  | some content, none => .ok (.text content)
  | none, some content => .ok (.photo content)
  | _, _ => .error .evidence

/-- Moves tokens and shows the balances of both parties. -/
def transfer (policy : RetryPolicy) (sender receiver : String) (amount : UInt64)
    (description : Option String) : Task Json := do
  let id ← perform (Ledger.tribute policy sender receiver amount description)
  let senderBalance ← perform (Ledger.balance sender)
  let receiverBalance ← perform (Ledger.balance receiver)
  pure (.obj [("receiver_balance", encode receiverBalance),
    ("sender_balance", encode senderBalance), ("transaction_id", .str id)])

/-- Tests the conditions of a ritual and runs or only lists their actions. -/
def fire (policy : RetryPolicy) (ritual subject trigger value : String) (dryRun : Bool) :
    Task Json := do
  let t ← check (readTrigger trigger value)
  let actions ← perform (Ritual.evaluate ritual t)
  let batch : Batch := ⟨ritual, subject, some t.kind, none⟩
  let log ← (if dryRun then batch.rehearse actions else batch.run policy actions : Program _)
  pure (.obj [("actions", encode actions), ("log", encode log), ("trigger", encode t)])

/-- What the engine does for a command, and what is printed. -/
def task (policy : RetryPolicy) (fs : Files) : EngineCommand → Task Json
  | .openAccount subject => encode <$> perform (Ledger.openAccount policy subject)
  | .showAccount subject => encode <$> perform (Ledger.account subject)
  | .history subject limit => encode <$> perform (Ledger.history subject limit)
  | .tribute sender receiver amount description =>
    transfer policy sender receiver amount description
  | .createRitual file => do
    let d ← check ((readDefinition fs file).mapError .definition)
    encode <$> perform (Ritual.create policy d)
  | .showRitual id => encode <$> perform (Ritual.get id)
  | .evaluate ritual subject trigger value dryRun =>
    fire policy ritual subject trigger value dryRun
  | .currentTask subject => encode <$> perform (Assignment.currentTask? subject)
  | .completeTask ritual subject index text photo => do
    let e ← check (evidence text photo)
    encode <$> perform (Completion.complete policy ⟨ritual, subject, index⟩ e)
  | .replayTask ritual subject index =>
    encode <$> perform (Completion.replay policy ⟨ritual, subject, index⟩)
  | .logMood subject mood => encode <$> perform (Mood.log policy subject mood)
  | .reportStreak subject count => encode <$> perform (Streak.report policy subject count)
  | .listNotifications subject => encode <$> perform (Notification.pending subject)
  | .readNotification id => encode <$> perform (Notification.markRead policy id)

end EngineCommand

/-! ## Processes -/

/-- What commands run on. -/
structure Machine where
  files : Files
  clock : Source Instant
  ids : Source String

/-- How a command ends. -/
inductive Ending where
  | printed (text : String)
  | failed (e : CommandError)

/-- The ending of a result that is printed. -/
def Ending.ofResult : Except CommandError String → Ending
  | .ok text => .printed text
  | .error e => .failed e

namespace Machine

/-- Where a freshly opened engine runs. -/
def setting (m : Machine) (o : OpenEngine) : Setting where
  store := o.store
  prompts := Sessions.empty o.config.promptTtl
  intrusions := []
  clock := m.clock
  ids := m.ids

/-- Runs a command to the engine. -/
def runEngine (m : Machine) (e : Environment) (c : EngineCommand) : Ending × Machine :=
  match e.openEngine.run m.files with
  | (.error error, fs) => (.failed (.engine error), { m with files := fs })
  | (.ok o, fs) =>
    let (result, s) := (ExceptT.run (c.task o.config.retryPolicy fs)).run (m.setting o)
    (Ending.ofResult (result.map Json.pretty),
      ⟨fs.saveDatabase o.place s.store, s.clock, s.ids⟩)

end Machine

namespace ConfigCommand

/-- What a command about the configuration does, and what is printed. -/
def action (e : Environment) : ConfigCommand → FileAction CommandError String
  | .get name => do
    let c ← (Config.load e).adapt .config
    match c.get name with
    | some text => pure text
    | none => throw (.unknownKey name)
  | .set name value => do
    let c ← (Config.load e).adapt .config
    let c ← ExceptT.mk (pure ((c.set name value).mapError .config))
    (Config.save e c).adapt .config
    pure "ok"
  | .show => do
    let c ← (Config.load e).adapt .config
    pure (encode c).pretty
  | .reset => do
    (Config.save e Config.default).adapt .config
    pure "config reset to defaults"

end ConfigCommand

namespace Machine

/-- Runs a command about the configuration. -/
def runConfig (m : Machine) (e : Environment) (c : ConfigCommand) : Ending × Machine :=
  let (result, fs) := (c.action e).run m.files
  (Ending.ofResult result, { m with files := fs })

/-- Runs a command. -/
def run (m : Machine) (e : Environment) : Command → Ending × Machine
  | .engine c => m.runEngine e c
  | .config c => m.runConfig e c

end Machine

end RitualLedger
