import RitualLedger.Number.Real64

/-!
# JSON values

Documents are JSON values. A number is an integer or a binary64 number, as it was written; an
object lists its fields. In a *canonical* object the names increase and none is repeated, which is
the form in which documents are stored and printed. `canonical` brings a value into that form: of
fields with one name the last one counts.
-/

namespace RitualLedger

/-- A JSON value. -/
inductive Json where
  | null
  | bool (b : Bool)
  | int (n : Int)
  | real (x : Real64)
  | str (s : String)
  | arr (items : List Json)
  | obj (fields : List (String × Json))

namespace Json

/-- The fields of an object. -/
abbrev Fields := List (String × Json)

instance : Inhabited Json := ⟨.null⟩

/-- A natural number as a value. -/
def nat (n : Nat) : Json := .int n

/-- The fields of an object; nothing else has any. -/
def fields? : Json → Option Fields
  | .obj fs => some fs
  | _ => none

/-- The field of a name. -/
def get? (j : Json) (name : String) : Option Json :=
  j.fields?.bind fun fs => fs.lookup name

/-- Puts a field in its place among increasing names, over a field of the same name. -/
def insertField (name : String) (value : Json) : Fields → Fields
  | [] => [(name, value)]
  | (n, v) :: rest =>
    if name < n then (name, value) :: (n, v) :: rest
    else if name = n then (name, value) :: rest
    else (n, v) :: insertField name value rest

/-- Fields in the order of their names, the last of each name. -/
def sortFields (fs : Fields) : Fields :=
  fs.foldl (fun sorted f => insertField f.1 f.2 sorted) []

/-- An object with its fields in order. -/
def object (fs : Fields) : Json := .obj (sortFields fs)

mutual

/-- The canonical form of a value. -/
def canonical : Json → Json
  | .arr items => .arr (canonicalItems items)
  | .obj fs => object (canonicalFields fs)
  | j => j

/-- The canonical forms of the items of an array. -/
def canonicalItems : List Json → List Json
  | [] => []
  | j :: rest => canonical j :: canonicalItems rest

/-- The fields of an object with canonical values. -/
def canonicalFields : Fields → Fields
  | [] => []
  | (name, j) :: rest => (name, canonical j) :: canonicalFields rest

end

end Json

end RitualLedger
