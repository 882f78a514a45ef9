import RitualLedger.Error
import RitualLedger.Files.Basic
import RitualLedger.Text.Decimal

/-!
# Commands

What can be asked on the command line: something of the engine, or something of the configuration.
The arguments of a command are checked for their form when they are read; whether a trigger or the
evidence makes sense is found out when the command runs.
-/

namespace RitualLedger

/-- A command to the engine. -/
inductive EngineCommand where
  | openAccount (subject : String)
  | showAccount (subject : String)
  | history (subject : String) (limit : UInt64)
  | tribute (sender receiver : String) (amount : UInt64) (description : Option String)
  /-- Creates a ritual from a definition in a file. -/
  | createRitual (file : String)
  | showRitual (id : String)
  /-- Tests the conditions of a ritual, and runs or only lists their actions. -/
  | evaluate (ritual subject trigger value : String) (dryRun : Bool)
  | currentTask (subject : String)
  | completeTask (ritual subject : String) (index : UInt64) (text photo : Option String)
  | replayTask (ritual subject : String) (index : UInt64)
  | logMood (subject mood : String)
  | reportStreak (subject : String) (count : UInt32)
  | listNotifications (subject : String)
  | readNotification (id : String)
deriving DecidableEq, Repr

/-- A command about the configuration. -/
inductive ConfigCommand where
  | get (name : String)
  | set (name value : String)
  | show
  | reset
deriving DecidableEq, Repr

/-- A command. -/
inductive Command where
  | engine (c : EngineCommand)
  | config (c : ConfigCommand)
deriving DecidableEq, Repr

/-- Why a definition in a file cannot be used. -/
inductive DefinitionFault where
  | unreadable (fault : FileFault)
  | malformed
deriving DecidableEq, Repr

/-- Why a command failed. -/
inductive CommandError where
  | engine (e : EngineError)
  | config (e : ConfigError)
  | definition (fault : DefinitionFault)
  | number (fault : Text.NumberFault)
  | unknownTrigger (spelling : String)
  | unknownKey (name : String)
  /-- Neither or both kinds of evidence were given. -/
  | evidence
deriving DecidableEq, Repr

/-- The wording of a failure. -/
def CommandError.message : CommandError → String
  | .engine e => e.message
  | .config e => e.message
  | .definition (.unreadable fault) => fault.message
  | .definition .malformed => "not a definition of a ritual"
  | .number fault => fault.message
  | .unknownTrigger spelling => "unknown trigger '" ++ spelling ++ "'"
  | .unknownKey name => "unknown key: " ++ name
  | .evidence => "exactly one of --text or --photo is required"

end RitualLedger
