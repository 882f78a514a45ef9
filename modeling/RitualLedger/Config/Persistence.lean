import RitualLedger.Config.Toml
import RitualLedger.Environment

/-!
# The configuration file

The configuration is kept in the data directory. Loading writes the default if there is no file yet;
a file that is there must be a configuration. A configuration that cannot be written leaves the file
as it was.
-/

namespace RitualLedger.Config

/-- The name of the file in the data directory. -/
def fileName : String := "config.toml"

/-- Writes a configuration into a file. -/
def saveTo (path : String) (c : Config) : FileAction ConfigError Unit :=
  match c.toToml? with
  | none => throw (.saveFailed path "an integer is too large for TOML")
  | some text =>
    FileAction.change fun fs =>
      (fs.writeText path text).mapError fun fault => .saveFailed path fault.message

/-- Saves a configuration. -/
def save (e : Environment) (c : Config) : FileAction ConfigError Unit := do
  let directory ← e.openDirectory
  saveTo (Path.join directory fileName) c

/-- Loads the configuration. -/
def load (e : Environment) : FileAction ConfigError Config := do
  let directory ← e.openDirectory
  let path := Path.join directory fileName
  match ← FileAction.look fun fs => .ok (fs.readText path) with
  | .error .notFound => do
    save e default
    pure default
  | .error fault => throw (.loadFailed path (.unreadable fault.message))
  | .ok text =>
    match ofToml? text with
    | some c => pure c
    | none => throw (.loadFailed path (.malformed "not a configuration"))

/-- Loads the configuration, or falls back on the default. -/
def loadOrDefault (e : Environment) (fs : Files) : Config × Files :=
  match (load e).run fs with
  | (.ok c, fs) => (c, fs)
  | (.error _, fs) => (default, fs)

end RitualLedger.Config
