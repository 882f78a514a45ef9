/-!
# Paths

A path is a text of components parted by slashes. It is absolute if it starts with a slash, and
joining an absolute path to another one leaves nothing of that other one.
-/

namespace RitualLedger.Path

/-- The components of a path, with an empty one at each slash that does not part two of them. -/
def components (path : String) : List String := (path.toList.splitOn '/').map String.ofList

/-- Whether a path starts at the root. -/
def isAbsolute (path : String) : Bool := path.startsWith "/"

/-- Goes on from a directory along a path. -/
def join (directory path : String) : String :=
  if path.startsWith "/" || directory.isEmpty then path
  else if directory.endsWith "/" then directory ++ path
  else directory ++ "/" ++ path

/-- Whether a component stays where it is. -/
def staysPut (component : String) : Bool := component.isEmpty || component == "."

/-- The components of a path that lead somewhere. -/
def moves (path : String) : List String := (components path).filter fun c => !staysPut c

/-- Whether a path ends with a component that stays where it is by a point. -/
def endsInPlace (path : String) : Bool :=
  ((components path).filter fun c => !c.isEmpty).getLast? == some "."

/-- The last component that leads somewhere; none at the root and after a step up. -/
def fileName? (path : String) : Option String :=
  match (moves path).getLast? with
  | some ".." => none
  | name => name

/-- What follows the last point of a name, unless the point comes first. -/
def extensionOf (name : List Char) : Option String :=
  let last := name.reverse.takeWhile (· != '.')
  if name.length ≤ last.length + 1 then none else some (String.ofList last.reverse)

/-- The extension of the file that a path leads to. -/
def extension? (path : String) : Option String :=
  (fileName? path).bind fun name => extensionOf name.toList

/-- Takes a component without looking at any file: up drops the last name. -/
def follow (names : List String) (component : String) : List String :=
  if staysPut component then names
  else if component == ".." then names.dropLast
  else names ++ [component]

end RitualLedger.Path
