import RitualLedger.Json.Token

/-!
# Reading JSON

The reader accepts the JSON grammar: no comments, no trailing commas, and at most 127 levels of
brackets. A reader can say by a *shape* what it wants of a value. What it does not want is skipped:
there the grammar alone is checked, brackets may nest to any depth, and nothing is kept.

`parseAs?` gives the fields of an object as they were written; `parse?` wants everything and gives
the canonical value. Reading is by recursion on a bound for the number of steps, which the length of
the text provides.

A number of a stored document passes through its text, which may move it by one place; `reread`
gives the value that comes back.
-/

namespace RitualLedger.Json

/-- The deepest nesting of brackets that is read. -/
def depthLimit : Nat := 127

/-- What is wanted of a value. -/
inductive Shape where
  /-- All of it. -/
  | whole
  /-- The items of an array, and of each the same. -/
  | items (each : Shape)
  /-- Some fields of an object, or of an array the items that stand for them in this order. -/
  | record (fields : List (String × Shape))

namespace Shape

/-- What is wanted of the field of a name; none if the field is not wanted. -/
def field? (s : Shape) (name : String) : Option Shape :=
  match s with
  | .record fields => fields.lookup name
  | _ => some .whole

/-- What is wanted of the first item of an array. -/
def first : Shape → Shape
  | .items each => each
  | .record ((_, s) :: _) => s
  | _ => .whole

/-- What is wanted of the items behind the first one. -/
def others : Shape → Shape
  | .items each => .items each
  | .record (_ :: rest) => .record rest
  | _ => .whole

end Shape

/-! ## Skipping -/

mutual

/-- What follows a value. -/
def skipValue : Nat → List Char → Option (List Char)
  | 0, _ => none
  | steps + 1, cs =>
    match skipSpace cs with
    | 'n' :: 'u' :: 'l' :: 'l' :: rest => some rest
    | 't' :: 'r' :: 'u' :: 'e' :: rest => some rest
    | 'f' :: 'a' :: 'l' :: 's' :: 'e' :: rest => some rest
    | '"' :: rest => skipText rest
    | '[' :: rest =>
      match skipSpace rest with
      | ']' :: left => some left
      | inside => skipItems steps inside
    | '\x7b' :: rest =>
      match skipSpace rest with
      | '\x7d' :: left => some left
      | inside => skipFields steps inside
    | rest => (numeral rest).map (·.2)

/-- What follows the items of an array and its closing bracket. -/
def skipItems : Nat → List Char → Option (List Char)
  | 0, _ => none
  | steps + 1, cs => do
    match skipSpace (← skipValue steps cs) with
    | ']' :: left => some left
    | ',' :: rest => skipItems steps rest
    | _ => none

/-- What follows the fields of an object and its closing bracket. -/
def skipFields : Nat → List Char → Option (List Char)
  | 0, _ => none
  | steps + 1, cs =>
    match skipSpace cs with
    | '"' :: rest => do
      match skipSpace (← skipText rest) with
      | ':' :: rest =>
        match skipSpace (← skipValue steps rest) with
        | '\x7d' :: left => some left
        | ',' :: rest => skipFields steps rest
        | _ => none
      | _ => none
    | _ => none

end

/-! ## Values -/

mutual

/-- Reads what is wanted of a value; `depth` is the number of levels of brackets that may still
open. -/
def value (s : Shape) (depth : Nat) : Nat → List Char → Option (Json × List Char)
  | 0, _ => none
  | steps + 1, cs =>
    match skipSpace cs with
    | 'n' :: 'u' :: 'l' :: 'l' :: rest => some (.null, rest)
    | 't' :: 'r' :: 'u' :: 'e' :: rest => some (.bool true, rest)
    | 'f' :: 'a' :: 'l' :: 's' :: 'e' :: rest => some (.bool false, rest)
    | '"' :: rest => (textBody rest).map fun (t, left) => (.str (String.ofList t), left)
    | '[' :: rest =>
      if depth = 0 then none
      else match skipSpace rest with
        | ']' :: left => some (.arr [], left)
        | inside => (items s (depth - 1) steps inside).map fun (xs, left) => (.arr xs, left)
    | '\x7b' :: rest =>
      if depth = 0 then none
      else match skipSpace rest with
        | '\x7d' :: left => some (.obj [], left)
        | inside => (fields s (depth - 1) steps inside).map fun (fs, left) => (.obj fs, left)
    | rest => do
      let (x, left) ← numeral rest
      some (← x.value?, left)

/-- Reads the items of an array up to its closing bracket. -/
def items (s : Shape) (depth : Nat) : Nat → List Char → Option (List Json × List Char)
  | 0, _ => none
  | steps + 1, cs => do
    let (v, rest) ← value s.first depth steps cs
    match skipSpace rest with
    | ']' :: left => some ([v], left)
    | ',' :: rest => (items s.others depth steps rest).map fun (xs, left) => (v :: xs, left)
    | _ => none

/-- Reads the fields of an object up to its closing bracket. -/
def fields (s : Shape) (depth : Nat) : Nat → List Char → Option (Fields × List Char)
  | 0, _ => none
  | steps + 1, cs =>
    match skipSpace cs with
    | '"' :: rest => do
      let (name, rest) ← textBody rest
      let name := String.ofList name
      match skipSpace rest with
      | ':' :: rest =>
        let (kept, rest) ← match s.field? name with
          | some wanted => (value wanted depth steps rest).map fun (v, left) => ([(name, v)], left)
          | none => (skipValue steps rest).map fun left => ([], left)
        match skipSpace rest with
        | '\x7d' :: left => some (kept, left)
        | ',' :: rest => (fields s depth steps rest).map fun (fs, left) => (kept ++ fs, left)
        | _ => none
      | _ => none
    | _ => none

end

/-- What is wanted of the value of a text, its objects with their fields as written. -/
def parseAs? (s : Shape) (text : String) : Option Json := do
  let cs := text.toList
  let (v, rest) ← value s depthLimit (2 * cs.length + 2) cs
  if skipSpace rest = [] then some v else none

/-- The canonical value of a text. -/
def parse? (text : String) : Option Json := (parseAs? .whole text).map canonical

/-! ## Numbers that pass through their text -/

/-- The number that the text of a number is read as. -/
def rereadReal (x : Real64) : Real64 :=
  (((numeral x.text.toList).bind fun (n, _) => n.real?)).getD x

mutual

/-- The value that the text of a value is read as. -/
def reread : Json → Json
  | .real x => .real (rereadReal x)
  | .arr items => .arr (rereadItems items)
  | .obj fs => .obj (rereadFields fs)
  | j => j

/-- The items of an array after reading their text. -/
def rereadItems : List Json → List Json
  | [] => []
  | j :: rest => reread j :: rereadItems rest

/-- The fields of an object after reading their text. -/
def rereadFields : Fields → Fields
  | [] => []
  | (name, j) :: rest => (name, reread j) :: rereadFields rest

end

end RitualLedger.Json
