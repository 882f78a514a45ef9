import RitualLedger.Config.Basic
import RitualLedger.Toml.Parser

/-!
# Configurations as TOML

A configuration is written as three tables with all their fields, and a blank line between them.
TOML has no integers above 2⁶³ - 1, so a configuration with a larger number cannot be written. Any
table or field may be missing from a text that is read.
-/

namespace RitualLedger.Config

/-- The line of a field. -/
def field (name value : String) : String := name ++ " = " ++ value ++ "\n"

/-- A table with its fields. -/
def table (name : String) (fields : List String) : String :=
  "[" ++ name ++ "]\n" ++ String.join fields

/-- The largest integer of TOML. -/
def largestInteger : Int := Int64.maxValue.toInt

/-- Whether TOML has all the integers of a configuration. -/
def isWritable (c : Config) : Bool :=
  [c.ledger.backoffBaseMs, c.ledger.backoffMaxMs, c.sessions.ttlSecs].all
    fun n => n.toNat ≤ largestInteger

/-- The text of a configuration whose integers TOML has. -/
def text (c : Config) : String :=
  "\n".intercalate [
    table "ledger" [
      field "max_attempts" (toString c.ledger.maxAttempts),
      field "backoff_base_ms" (toString c.ledger.backoffBaseMs),
      field "backoff_max_ms" (toString c.ledger.backoffMaxMs)],
    table "sessions" [field "ttl_secs" (toString c.sessions.ttlSecs)],
    table "storage" [
      field "database_file" (String.ofList (Toml.writeText c.storage.databaseFile.toList))]]

/-- Writes a configuration; none if an integer is too large. -/
def toToml? (c : Config) : Option String := if c.isWritable then some c.text else none

/-- Reads a configuration. -/
def ofToml? (s : String) : Option Config := (Toml.document? s).bind (Document.read? .toml)

end RitualLedger.Config
