import RitualLedger.Files.Path
import RitualLedger.Store.Basic

/-!
# Files

A tree of directories and files, as a list of what stands at each place; a place is the list of
names that leads there from the root. A file holds a text, a document store, or something else. A
relative path starts at the working directory.

Walking along a path looks at every directory on the way: a step up from a place is possible only
if the place is a directory. What cannot be done is reported as a fault and changes nothing. Stores
in files are opened by `Files/Database`.
-/

namespace RitualLedger

/-- Why a file cannot be used. -/
inductive FileFault where
  | notFound
  | notDirectory
  | isDirectory
  | notText
  | nameTooLong
  | impossibleName
deriving DecidableEq, Repr

/-- The wording of a fault. -/
def FileFault.message : FileFault → String
  | .notFound => "No such file or directory (os error 2)"
  | .notDirectory => "Not a directory (os error 20)"
  | .isDirectory => "Is a directory (os error 21)"
  | .notText => "stream did not contain valid UTF-8"
  | .nameTooLong => "File name too long (os error 36)"
  | .impossibleName => "file name contained an unexpected NUL byte"

/-- What stands at a place. -/
inductive FileNode where
  | directory
  | text (content : String)
  | database (store : Store)
  /-- A file that is neither a text nor a document store. -/
  | other

/-- A place in the tree: the names that lead there. -/
abbrev Place := List String

/-- What stands where. The root is a directory and is not listed. -/
structure Files where
  nodes : List (Place × FileNode)
  workingDirectory : Place

namespace Files

/-- A root without files, where relative paths start too. -/
def empty : Files := ⟨[], []⟩

/-- What stands at a place. -/
def node? (fs : Files) (place : Place) : Option FileNode :=
  if place.isEmpty then some .directory else fs.nodes.lookup place

/-- Puts something at a place, in place of what stands there. -/
def set (fs : Files) (place : Place) (node : FileNode) : Files :=
  { fs with nodes := (place, node) :: fs.nodes.filter fun n => n.1 != place }

/-- The names in a directory. -/
def names (fs : Files) (place : Place) : List String :=
  (fs.nodes.filterMap fun n =>
    if n.1.dropLast == place then n.1.getLast? else none).mergeSort

/-! ## Walking -/

/-- Where a path starts. -/
def start (fs : Files) (path : String) : Place :=
  if Path.isAbsolute path then [] else fs.workingDirectory

/-- Accepts a place that is a directory. -/
def requireDirectory (fs : Files) (place : Place) : Except FileFault Unit :=
  match fs.node? place with
  | none => .error .notFound
  | some .directory => .ok ()
  | some _ => .error .notDirectory

/-- The most bytes of a name. -/
def longestName : Nat := 255

/-- Goes one step from a directory. -/
def step (fs : Files) (place : Place) (component : String) : Except FileFault Place := do
  fs.requireDirectory place
  if longestName < component.utf8ByteSize then .error .nameTooLong
  else .ok (Path.follow place component)

/-- The most bytes of a path. -/
def longestPath : Nat := 4095

/-- The place at the end of a path. Everything on the way must be a directory. -/
def walk (fs : Files) (path : String) : Except FileFault Place :=
  if path.toList.contains '\x00' then .error .impossibleName
  else if path.isEmpty then .error .notFound
  else if longestPath < path.utf8ByteSize then .error .nameTooLong
  else (Path.components path).foldlM fs.step (fs.start path)

/-- Whether something stands at the end of a path. -/
def exists? (fs : Files) (path : String) : Bool :=
  match fs.walk path with
  | .ok place => (fs.node? place).isSome
  | .error _ => false

/-! ## Texts and directories -/

/-- The text of a file. -/
def readText (fs : Files) (path : String) : Except FileFault String := do
  let place ← fs.walk path
  match fs.node? place with
  | none => .error .notFound
  | some .directory => .error .isDirectory
  | some (.text content) => .ok content
  | some (.database _) | some .other => .error .notText

/-- Writes a text into a file, which need not exist. -/
def writeText (fs : Files) (path content : String) : Except FileFault Files := do
  let place ← fs.walk path
  match fs.node? place with
  | some .directory => .error .isDirectory
  | _ => .ok (fs.set place (.text content))

/-- Goes one step, and creates a directory if there is nothing. -/
def stepCreating (r : Files × Place) (component : String) : Except FileFault (Files × Place) := do
  let place ← r.1.step r.2 component
  match r.1.node? place with
  | none => .ok (r.1.set place .directory, place)
  | some .directory => .ok (r.1, place)
  | some _ => .error .notDirectory

/-- Goes one step to a directory that must be there. -/
def stepExisting (fs : Files) (place : Place) (component : String) : Except FileFault Unit := do
  fs.requireDirectory (← fs.step place component)

/-- Creates the directories along a path that are missing. If the path ends with a point, the
directory before the point must be there. -/
def createDirectories (fs : Files) (path : String) : Except FileFault Files :=
  if path.toList.contains '\x00' then .error .impossibleName
  else if longestPath < path.utf8ByteSize then .error .nameTooLong
  else do
    let names := Path.moves path
    let (created, existing) :=
      if Path.endsInPlace path then (names.dropLast, names.getLast?) else (names, none)
    let (fs, place) ← created.foldlM stepCreating (fs, fs.start path)
    match existing with
    | some name => fs.stepExisting place name
    | none => .ok ()
    .ok fs

end Files

end RitualLedger
