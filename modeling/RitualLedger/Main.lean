import RitualLedger.Command.Arguments
import RitualLedger.Command.Run
import RitualLedger.Store.Archive
import RitualLedger.Text.Uuid
import Std.Time.DateTime.Timestamp

/-!
# The command line

Reads the arguments, looks at the files that the command is about, runs it, and writes the files
that it has changed.
-/

namespace RitualLedger.CommandLine

/-! ## Looking at files -/

/-- The path of a place. -/
def pathOf (place : Place) : String := "/" ++ "/".intercalate place

/-- What the bytes of a file are. -/
def nodeOfBytes (bytes : ByteArray) : FileNode :=
  match String.fromUTF8? bytes with
  | none => .other
  | some text =>
    match Store.ofArchive? text with
    | some store => .database store
    | none => .text text

/-- Looks at a place. -/
def look (fs : Files) (place : Place) : IO Files := do
  let path := (← IO.currentDir) / pathOf place
  if (fs.node? place).isSome then pure fs
  else if ← path.isDir then pure (fs.set place .directory)
  else if ← path.pathExists then pure (fs.set place (nodeOfBytes (← IO.FS.readBinFile path)))
  else pure fs

/-- The places along a path. -/
def placesAlong (fs : Files) (path : String) : List Place :=
  (Path.components path).foldl
    (fun places c => places ++ [Path.follow (places.getLastD (fs.start path)) c]) [fs.start path]

/-- Looks at the places along a path. -/
def lookAlong (fs : Files) (path : String) : IO Files := do
  (placesAlong fs path).foldlM look fs

/-- The files that a command is about, apart from the data directory. -/
def definitionFiles : Command → List String
  | .engine (.createRitual file) => [file]
  | _ => []

/-- Looks at the files beside a document store. -/
def lookBeside (fs : Files) (path : String) : IO Files :=
  match fs.databasePlace? path with
  | some place => (Files.companionPlaces place).foldlM look fs
  | none => pure fs

/-- Looks at all that a command may need. -/
def lookFor (e : Environment) (c : Command) : IO Files := do
  let here := (← IO.currentDir).toString
  let bare : Files := ⟨[], (Path.components here).foldl Path.follow []⟩
  let paths := here :: Path.join e.directoryPath Config.fileName :: definitionFiles c
  let fs ← paths.foldlM lookAlong bare
  let database := Path.join e.directoryPath (Config.loadOrDefault e fs).1.storage.databaseFile
  lookBeside (← lookAlong fs database) database

/-! ## Changing files -/

/-- The text of a node that is a file. -/
def contentOf : FileNode → Option String
  | .text content => some content
  | .database store => some store.archive
  | _ => none

/-- Writes what has changed at a place. -/
def write (before : Files) (place : Place) (node : FileNode) : IO Unit := do
  let path := (← IO.currentDir) / pathOf place
  match node, before.node? place with
  | .directory, none => IO.FS.createDir path
  | node, old =>
    match contentOf node with
    | some content => if old.bind contentOf != some content then IO.FS.writeFile path content
    | none => pure ()

/-- Removes what has gone from a place. -/
def remove (after : Files) (place : Place) : IO Unit := do
  if (after.node? place).isNone then IO.FS.removeFile ((← IO.currentDir) / pathOf place)

/-- Writes all that has changed, directories before what is in them, and removes what has gone. -/
def writeAll (before after : Files) : IO Unit := do
  (after.nodes.mergeSort fun a b => a.1.length ≤ b.1.length).forM fun n => write before n.1 n.2
  before.nodes.forM fun n => remove after n.1

/-! ## Running -/

/-- The present. -/
def present : IO Instant := do
  let nanos := (← Std.Time.Timestamp.now).toNanosecondsSinceUnixEpoch.val
  pure ⟨nanos / 1000000000, (nanos % 1000000000).toNat⟩

/-- A source of identifiers that starts at a random one. -/
def randomIds : IO (Source String) := do
  let bytes ← IO.getRandomBytes 16
  let start := bytes.data.foldl (fun n b => 256 * n + b.toNat) 0
  pure ⟨fun n => Text.uuid ((start + n) % Text.uuidCount), 0⟩

/-- Runs a command and gives its exit code. -/
def run (c : Command) : IO UInt32 := do
  let e : Environment :=
    ⟨← IO.getEnv "RITUALWARE_DATA_DIR", ← IO.getEnv "HOME", ← IO.getEnv "RITUALWARE_ENV"⟩
  let fs ← lookFor e c
  let now ← present
  let (ending, m) := Machine.run ⟨fs, ⟨fun _ => now, 0⟩, ← randomIds⟩ e c
  writeAll fs m.files
  match ending with
  | .printed text => IO.println text; pure 0
  | .failed error => IO.eprintln ("error: " ++ error.message); pure 1

/-- Reads a command line and runs its command. -/
def start (args : List String) : IO UInt32 := do
  match Command.read args with
  | .ok c => run c
  | .error .version => IO.println Command.version; pure 0
  | .error .help => IO.println Command.usage; pure 0
  | .error .misuse => IO.eprintln Command.usage; pure 2

end RitualLedger.CommandLine

/-- The command line. -/
def main (args : List String) : IO UInt32 := RitualLedger.CommandLine.start args
