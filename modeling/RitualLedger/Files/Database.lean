import RitualLedger.Files.Basic

/-!
# Document stores in files

A document store is opened by the path of its file. The path is carried out name by name: a step up
drops the last name and does not ask what stands there. But every place that a name leads to is
looked at, and it must be a place where something could stand.

A store is opened in three steps: `openPlace` finds the place of its file, `makeFile` makes an empty
file if there is none, and `loadDatabase` reads the store. The file stays when the last step fails.

Changes of a store need room for two files beside it, a journal and a log. Where they cannot be
written, the store cannot be used; where files are left over from before, they go away.
-/

namespace RitualLedger.Files

/-- The number of bytes of the path that leads to a place. -/
def pathSize (place : Place) : Nat :=
  place.foldr (fun name size => name.utf8ByteSize + 1 + size) 0

/-- The most bytes of a path on the way to a store. -/
def longestWay : Nat := 511

/-- The most bytes of the path of a store, so that there is a path for its journal. -/
def longestStorePath : Nat := 504

/-- Whether something could stand at a place: only missing directories may be in the way. -/
def couldStand (fs : Files) (place : Place) : Bool :=
  match place.foldlM fs.step [] with
  | .ok _ | .error .notFound => true
  | .error _ => false

/-- Carries out one component of the path of a store. -/
def storeStep (fs : Files) (place : Place) (component : String) : Option Place :=
  let next := Path.follow place component
  if Path.staysPut component || component == ".." then some next
  else if pathSize next ≤ longestWay && fs.couldStand next then some next
  else none

/-- The place of a store: it must be in a directory. -/
def databasePlace? (fs : Files) (path : String) : Option Place := do
  if path.toList.contains '\x00' then none
  let place ← (Path.components path).foldlM fs.storeStep (fs.start path)
  if longestStorePath < pathSize place then none
  match fs.node? place.dropLast with
  | some .directory => some place
  | _ => none

/-- The names of the files beside a store, made of its own name. -/
def companions (name : String) : List String := [name ++ "-journal", name ++ "-wal"]

/-- The places of the files beside a store. -/
def companionPlaces (place : Place) : List Place :=
  (companions (place.getLast?.getD "")).map fun name => place.dropLast ++ [name]

/-- Whether the files beside a store can be written. -/
def hasRoomBeside (fs : Files) (place : Place) : Bool :=
  (companionPlaces place).all fun p =>
    (p.getLast?.getD "").utf8ByteSize ≤ longestName &&
      match fs.node? p with
      | some .directory => false
      | _ => true

/-- The store that a file holds: a file of one byte at most is an empty store. -/
def storeOf? : Option FileNode → Option Store
  | none => some Store.empty
  | some (.database store) => some store
  | some (.text content) => if content.utf8ByteSize ≤ 1 then some Store.empty else none
  | some .other | some .directory => none

/-- The place of the store at the end of a path, if a file is there or can be made. -/
def openPlace (fs : Files) (path : String) : Except StoreError Place :=
  let failed := StoreError.openFailed path "unable to open database file"
  match fs.databasePlace? path with
  | none => .error failed
  | some place =>
    match fs.node? place with
    | some .directory => .error failed
    | _ => .ok place

/-- Makes an empty file at a place where nothing is. -/
def makeFile (fs : Files) (place : Place) : Files :=
  if (fs.node? place).isSome then fs else fs.set place (.text "")

/-- The document store in the file at a place. -/
def loadDatabase (fs : Files) (place : Place) : Except StoreError Store :=
  match storeOf? (fs.node? place) with
  | none => .error (.queryFailed "file is not a database")
  | some store =>
    if fs.hasRoomBeside place then .ok store
    else .error (.queryFailed "unable to open database file")

/-- Removes files; directories stay. -/
def removeFiles (fs : Files) (places : List Place) : Files :=
  { fs with nodes := fs.nodes.filter fun (place, node) =>
      !places.contains place || match node with
        | .directory => true
        | _ => false }

/-- Keeps a document store at a place. -/
def saveDatabase (fs : Files) (place : Place) (store : Store) : Files :=
  (fs.removeFiles (companionPlaces place)).set place (.database store)

end RitualLedger.Files
