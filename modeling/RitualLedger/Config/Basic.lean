import RitualLedger.Document
import RitualLedger.Error
import RitualLedger.Json.Printer
import RitualLedger.Text.Decimal

/-!
# Configuration

Three sections: how often the ledger retries a transaction, how long prompts live, and where the
documents are kept. Every section and every field has a default, so any part may be left out.

The parts have dotted names. `Config.get` shows a part by its name, and `Config.set` changes a leaf
by its name, from a text: any text for a leaf that is a text, and a number in range for the others.
-/

namespace RitualLedger

/-- How the ledger repeats a transaction that met a conflict. -/
structure LedgerConfig where
  maxAttempts : UInt32
  /-- Milliseconds before the first repetition. -/
  backoffBaseMs : UInt64
  /-- The most milliseconds before a repetition. -/
  backoffMaxMs : UInt64
deriving DecidableEq, Repr

/-- How long prompts live. -/
structure SessionConfig where
  ttlSecs : UInt64
deriving DecidableEq, Repr

/-- Where documents are kept. -/
structure StorageConfig where
  /-- A path that starts in the data directory. -/
  databaseFile : String
deriving DecidableEq, Repr

/-- The configuration. -/
structure Config where
  ledger : LedgerConfig
  sessions : SessionConfig
  storage : StorageConfig
deriving DecidableEq, Repr

namespace Config

/-! ## Defaults and encoding -/

/-- The default of the ledger's section. -/
def defaultLedger : LedgerConfig := ⟨16, 2, 100⟩

/-- The default of the prompts' section. -/
def defaultSessions : SessionConfig := ⟨600⟩

/-- The default of the documents' section. -/
def defaultStorage : StorageConfig := ⟨"ritualware.db"⟩

/-- The configuration in which nothing was set. -/
def default : Config := ⟨defaultLedger, defaultSessions, defaultStorage⟩

instance : Document LedgerConfig where
  encode c := .obj [("backoff_base_ms", encode c.backoffBaseMs),
    ("backoff_max_ms", encode c.backoffMaxMs), ("max_attempts", encode c.maxAttempts)]
  read? := Document.record do
    return {
      maxAttempts := ← Document.defaulted "max_attempts" defaultLedger.maxAttempts
      backoffBaseMs := ← Document.defaulted "backoff_base_ms" defaultLedger.backoffBaseMs
      backoffMaxMs := ← Document.defaulted "backoff_max_ms" defaultLedger.backoffMaxMs }

instance : Document SessionConfig where
  encode c := .obj [("ttl_secs", encode c.ttlSecs)]
  read? := Document.record do
    return ⟨← Document.defaulted "ttl_secs" defaultSessions.ttlSecs⟩

instance : Document StorageConfig where
  encode c := .obj [("database_file", .str c.databaseFile)]
  read? := Document.record do
    return ⟨← Document.defaulted "database_file" defaultStorage.databaseFile⟩

instance : Document Config where
  encode c := .obj [("ledger", encode c.ledger), ("sessions", encode c.sessions),
    ("storage", encode c.storage)]
  read? := Document.record do
    return {
      ledger := ← Document.defaulted "ledger" defaultLedger
      sessions := ← Document.defaulted "sessions" defaultSessions
      storage := ← Document.defaulted "storage" defaultStorage }

/-! ## Parts by name -/

/-- A field of a section. -/
inductive Leaf where
  | maxAttempts
  | backoffBaseMs
  | backoffMaxMs
  | ttlSecs
  | databaseFile
deriving DecidableEq, Repr

/-- A section. -/
inductive Section where
  | ledger
  | sessions
  | storage
deriving DecidableEq, Repr

/-- A part of the configuration. -/
inductive Part where
  | leaf (l : Leaf)
  | whole (s : Section)
deriving DecidableEq, Repr

/-- The name of a leaf: its section and its field. -/
def Leaf.name : Leaf → String
  | .maxAttempts => "ledger.max_attempts"
  | .backoffBaseMs => "ledger.backoff_base_ms"
  | .backoffMaxMs => "ledger.backoff_max_ms"
  | .ttlSecs => "sessions.ttl_secs"
  | .databaseFile => "storage.database_file"

/-- The name of a section. -/
def Section.name : Section → String
  | .ledger => "ledger"
  | .sessions => "sessions"
  | .storage => "storage"

/-- The name of a part. -/
def Part.name : Part → String
  | .leaf l => l.name
  | .whole s => s.name

/-- All parts. -/
def Part.all : List Part :=
  [.leaf .maxAttempts, .leaf .backoffBaseMs, .leaf .backoffMaxMs, .leaf .ttlSecs,
    .leaf .databaseFile, .whole .ledger, .whole .sessions, .whole .storage]

/-- The part of a name. -/
def Part.ofName? (name : String) : Option Part := all.find? fun p => p.name == name

/-- The text of a leaf. -/
def leafText (c : Config) : Leaf → String
  | .maxAttempts => toString c.ledger.maxAttempts
  | .backoffBaseMs => toString c.ledger.backoffBaseMs
  | .backoffMaxMs => toString c.ledger.backoffMaxMs
  | .ttlSecs => toString c.sessions.ttlSecs
  | .databaseFile => c.storage.databaseFile

/-- The encoding of a section. -/
def sectionJson (c : Config) : Section → Json
  | .ledger => encode c.ledger
  | .sessions => encode c.sessions
  | .storage => encode c.storage

/-- The text of a part; none if there is no part of that name. -/
def get (c : Config) (name : String) : Option String :=
  match Part.ofName? name with
  | none => none
  | some (.leaf l) => some (c.leafText l)
  | some (.whole s) => some (c.sectionJson s).compact

/-! ## Changes -/

/-- Refuses a value for the part of a name. -/
def refuse {α : Type} (name reason : String) : Except ConfigError α :=
  .error (.invalidValue name reason)

/-- Reads a number for the part of a name. -/
def readNumber (name value : String) : Except ConfigError UInt64 :=
  match Text.readWord value with
  | .ok n => .ok n
  | .error _ => refuse name ("cannot parse '" ++ value ++ "' as number")

/-- The number of attempts, which is a half word. -/
def readAttempts (name value : String) : Except ConfigError UInt32 := do
  let n ← readNumber name value
  if n.toNat < UInt32.size then .ok n.toUInt32
  else refuse name ("invalid value: integer `" ++ toString n ++ "`, expected u32")

/-- The configuration with a leaf changed to the value of a text. -/
def setLeaf (c : Config) (l : Leaf) (value : String) : Except ConfigError Config :=
  match l with
  | .maxAttempts => do
    let n ← readAttempts l.name value
    .ok { c with ledger := { c.ledger with maxAttempts := n } }
  | .backoffBaseMs => do
    let n ← readNumber l.name value
    .ok { c with ledger := { c.ledger with backoffBaseMs := n } }
  | .backoffMaxMs => do
    let n ← readNumber l.name value
    .ok { c with ledger := { c.ledger with backoffMaxMs := n } }
  | .ttlSecs => do
    let n ← readNumber l.name value
    .ok { c with sessions := ⟨n⟩ }
  | .databaseFile => .ok { c with storage := ⟨value⟩ }

/-- The configuration with the part of a name changed to the value of a text. -/
def set (c : Config) (name value : String) : Except ConfigError Config :=
  match Part.ofName? name with
  | none => .error (.unknownKey name)
  | some (.whole _) => refuse name "not a leaf value"
  | some (.leaf l) => c.setLeaf l value

end Config

end RitualLedger
