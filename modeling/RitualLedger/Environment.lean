import RitualLedger.Error
import RitualLedger.Files.Basic

/-!
# The environment

Where the engine keeps its files. An explicit data directory wins; otherwise it is a directory in
the home of the user, another one for development than for production. It is created when it is
first needed.
-/

namespace RitualLedger

/-- Something that is done on files and may fail. What was done before a failure stays done. -/
abbrev FileAction (ε α : Type) := ExceptT ε (StateM Files) α

namespace FileAction

variable {ε α : Type}

/-- Runs an action to its result. -/
def run (action : FileAction ε α) (fs : Files) : Except ε α × Files := (ExceptT.run action).run fs

/-- Looks at the files. -/
def look (f : Files → Except ε α) : FileAction ε α := ExceptT.mk fun fs => (f fs, fs)

/-- Changes the files unless that fails. -/
def change (f : Files → Except ε Files) : FileAction ε Unit := ExceptT.mk fun fs =>
  match f fs with
  | .ok changed => (.ok (), changed)
  | .error e => (.error e, fs)

end FileAction

/-- The variables that decide on the data directory. -/
structure Environment where
  /-- An explicit data directory. -/
  dataDirectory : Option String
  /-- The home of the user. -/
  home : Option String
  /-- What the engine is used for. -/
  profile : Option String
deriving DecidableEq, Repr

namespace Environment

/-- The name of the directory in the home of the user. -/
def directoryName (e : Environment) : String :=
  if e.profile = some "dev" then "ritualware-dev" else "ritualware"

/-- The path of the data directory. -/
def directoryPath (e : Environment) : String :=
  match e.dataDirectory with
  | some path => path
  | none => Path.join (Path.join (e.home.getD ".") ".config") e.directoryName

/-- The data directory, which is created if it is missing. -/
def openDirectory (e : Environment) : FileAction ConfigError String := do
  let path := e.directoryPath
  FileAction.change fun fs =>
    (fs.createDirectories path).mapError fun fault => .dataDirectory path fault.message
  pure path

end Environment

end RitualLedger
