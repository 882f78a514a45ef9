/-!
# Errors

Errors are causes; their wording is one function per type. `EngineError` is what the operations of
the engine fail with: something is missing, a balance is short, a task was submitted too late, or
one of the layers below refused. A failure is worth repeating only when it came from contention.
-/

namespace RitualLedger

/-- The kinds of things that can be missing. -/
inductive EntityKind where
  | ritual
  | assignment
  | account
  | completion
  | notification
deriving DecidableEq, Repr

/-- The name of a kind in messages. -/
def EntityKind.name : EntityKind → String
  | .ritual => "Ritual"
  | .assignment => "Assignment"
  | .account => "Account"
  | .completion => "Completion"
  | .notification => "Notification"

/-- Why a request or a definition is refused. -/
inductive ValidationError where
  | emptyCollection (collection : String)
  | outOfBounds (collection : String) (index length : Nat)
  | invalidValue (field reason : String)
  | invalidCondition (index : Nat) (reason : String)
deriving DecidableEq, Repr

/-- The wording of a refusal. -/
def ValidationError.message : ValidationError → String
  | .emptyCollection collection => s!"Empty collection: {collection}"
  | .outOfBounds collection index length =>
    s!"Index {index} out of bounds for {collection} (length: {length})"
  | .invalidValue field reason => s!"Invalid value for '{field}': {reason}"
  | .invalidCondition index reason => s!"Invalid condition #{index}: {reason}"

/-- Why the document store failed. -/
inductive StoreError where
  /-- A document moved since it was read, or exists although it should not. -/
  | conflict (key : String)
  /-- Every attempt of a transaction met a conflict. -/
  | retriesExhausted (attempts : Nat)
  | openFailed (path reason : String)
  | queryFailed (reason : String)
  /-- Another client holds the store. -/
  | locked
  /-- A stored document is not of the type that is expected of it. -/
  | serialization (reason : String)
  | poisoned
deriving DecidableEq, Repr

/-- The wording of a failure of the store. -/
def StoreError.message : StoreError → String
  | .conflict key => s!"Transaction conflict on '{key}'"
  | .retriesExhausted attempts => s!"Transaction still conflicting after {attempts} attempts"
  | .openFailed path reason => s!"Failed to open database at {path}: {reason}"
  | .queryFailed reason => s!"Query failed: {reason}"
  | .locked => "Database is locked"
  | .serialization reason => s!"Document serialization failed: {reason}"
  | .poisoned => "Database connection poisoned"

/-- Why a configuration file could not be loaded. -/
inductive LoadFault where
  /-- The file is there but cannot be read. -/
  | unreadable (reason : String)
  /-- The text is not a configuration. -/
  | malformed (reason : String)
deriving DecidableEq, Repr

/-- The wording of a fault. -/
def LoadFault.message : LoadFault → String
  | .unreadable reason => reason
  | .malformed reason => reason

/-- Why the configuration cannot be used or changed. -/
inductive ConfigError where
  | loadFailed (path : String) (fault : LoadFault)
  | saveFailed (path reason : String)
  | invalidValue (key reason : String)
  | unknownKey (key : String)
  | dataDirectory (path reason : String)
deriving DecidableEq, Repr

/-- The wording of a failure of the configuration. -/
def ConfigError.message : ConfigError → String
  | .loadFailed path fault =>
    "Failed to load configuration from " ++ path ++ ": " ++ fault.message
  | .saveFailed path reason => s!"Failed to save configuration to {path}: {reason}"
  | .invalidValue key reason => s!"Invalid configuration value for '{key}': {reason}"
  | .unknownKey key => s!"Unknown configuration key: {key}"
  | .dataDirectory path reason => s!"Cannot access data directory: {path}: {reason}"

/-- Why an operation of the engine failed. -/
inductive EngineError where
  | notFound (kind : EntityKind) (id : String)
  | insufficientBalance (subject : String) (balance : Int) (requested : Nat)
  | staleTask (ritual : String) (submitted current : Nat)
  | validation (e : ValidationError)
  | store (e : StoreError)
  | config (e : ConfigError)
deriving DecidableEq, Repr

namespace EngineError

/-- The wording of a failed operation. -/
def message : EngineError → String
  | .notFound kind id => kind.name ++ " '" ++ id ++ "' not found"
  | .insufficientBalance subject balance requested =>
    s!"Insufficient token balance for '{subject}': balance {balance}, requested {requested}"
  | .staleTask ritual submitted current =>
    s!"Cannot complete task {submitted} of ritual '{ritual}': current task is {current}"
  | .validation e => "Validation error: " ++ e.message
  | .store e => "Storage error: " ++ e.message
  | .config e => "Configuration error: " ++ e.message

/-- Whether the same operation may succeed when it is repeated. -/
def isRetriable : EngineError → Bool
  | .store (.retriesExhausted _) => true
  | .store .locked => true
  | _ => false

end EngineError

end RitualLedger
