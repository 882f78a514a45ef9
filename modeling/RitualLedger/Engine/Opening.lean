import RitualLedger.Config.Persistence
import RitualLedger.Engine.Transaction
import RitualLedger.Files.Database

/-!
# Opening the engine

The configuration decides how the engine runs: how often it retries, how long prompts live, and
which file in the data directory holds the documents. The file is created with the first opening.
-/

namespace RitualLedger

/-- How often transactions are attempted under a configuration. -/
def Config.retryPolicy (c : Config) : RetryPolicy := ⟨max 1 c.ledger.maxAttempts.toNat⟩

/-- How long prompts live under a configuration, in nanoseconds. -/
def Config.promptTtl (c : Config) : Int := Sessions.ttlOfSeconds c.sessions.ttlSecs

/-- An engine that has been opened. -/
structure OpenEngine where
  config : Config
  /-- The file of the documents. -/
  place : Place
  store : Store

/-- Opens the engine of an environment. -/
def Environment.openEngine (e : Environment) : FileAction EngineError OpenEngine := do
  let config ← (Config.load e).adapt .config
  let directory ← e.openDirectory.adapt .config
  let path := Path.join directory config.storage.databaseFile
  let place ← FileAction.look fun fs => (fs.openPlace path).mapError .store
  FileAction.change fun fs => .ok (fs.makeFile place)
  let store ← FileAction.look fun fs => (fs.loadDatabase place).mapError .store
  FileAction.change fun fs => .ok (fs.saveDatabase place store)
  pure ⟨config, place, store⟩

end RitualLedger
