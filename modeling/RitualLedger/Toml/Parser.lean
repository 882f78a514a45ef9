import RitualLedger.Toml.Text
import RitualLedger.Toml.Scalar
import RitualLedger.Toml.Table

/-!
# Reading TOML

A document is read in two steps. `statements` turns the text into its lines: headers of tables and
of arrays of tables, and pairs of a dotted key and a value. `document?` then lets each line build
on the tables before it, under the rules of `Toml/Table`. Values are read by recursion on a bound
for the number of steps, which the length of the text provides; brackets may nest 79 levels deep,
and a dotted key has at most as many parts.
-/

namespace RitualLedger.Toml

/-- The deepest nesting of brackets that is read, and the most parts of a key. -/
def depthLimit : Nat := 79

/-- What follows the blanks of a line. -/
def skipBlanks (cs : List Char) : List Char := cs.dropWhile fun c => c = ' ' || c = '\t'

/-- What follows a comment: the line end. No control character may stand in it. -/
def skipComment : List Char → Option (List Char)
  | [] => some []
  | '\n' :: rest => some ('\n' :: rest)
  | '\r' :: '\n' :: rest => some ('\r' :: '\n' :: rest)
  | c :: rest => if isControl c then none else skipComment rest

/-- What follows the blanks and the comment at the end of a line; the line end stays. -/
def skipTrailing (cs : List Char) : Option (List Char) :=
  match skipBlanks cs with
  | '#' :: rest => skipComment rest
  | rest => some rest

/-- What follows the end of a line, which the end of the document is too. -/
def endLine (cs : List Char) : Option (List Char) := do
  match ← skipTrailing cs with
  | [] => some []
  | '\n' :: rest => some rest
  | '\r' :: '\n' :: rest => some rest
  | _ => none

/-- What follows blanks, comments and line ends, as they may stand between the items of an array. -/
def skipLines : Nat → List Char → Option (List Char)
  | 0, _ => none
  | steps + 1, cs => do
    match ← skipTrailing cs with
    | '\n' :: rest => skipLines steps rest
    | '\r' :: '\n' :: rest => skipLines steps rest
    | rest => some rest

/-- The characters of a key without quotes. -/
def isBareKeyChar (c : Char) : Bool := c.isAlphanum || c = '_' || c = '-'

/-- Reads one part of a key. -/
def keyPart (cs : List Char) : Option (String × List Char) :=
  match readLineText cs with
  | some (text, rest) => some (String.ofList text, rest)
  | none =>
    let (name, rest) := cs.span isBareKeyChar
    if name.isEmpty then none else some (String.ofList name, rest)

/-- Reads the parts of a dotted key, `most` of them at most, and gives the rest without the blanks
around them. -/
def keyParts : Nat → List Char → Option (List String × List Char)
  | 0, _ => none
  | most + 1, cs => do
    let (part, rest) ← keyPart (skipBlanks cs)
    match skipBlanks rest with
    | '.' :: rest => (keyParts most rest).map fun (parts, rest) => (part :: parts, rest)
    | rest => some ([part], rest)

/-- Reads a dotted key. -/
def key (cs : List Char) : Option (List String × List Char) := keyParts depthLimit cs

/-- A dotted key as the path to its table and its last part. -/
def splitKey (parts : List String) : Option (List String × String) :=
  parts.getLast?.map fun last => (parts.dropLast, last)

/-- A pair of a dotted key and a value. -/
structure Pair where
  path : List String
  name : String
  value : Json

/-- The closed table of the pairs between two braces. -/
def inlineTable? (pairs : List Pair) : Option Json :=
  (pairs.foldlM (fun entries p => Entries.addPair p.path p.name p.value .header entries) []).map
    fun entries => (Node.table .header entries).toJson

mutual

/-- Reads a value; `depth` is the number of levels of brackets that may still open. -/
def value (depth : Nat) : Nat → List Char → Option (Json × List Char)
  | 0, _ => none
  | steps + 1, cs =>
    match cs with
    | '"' :: _ | '\'' :: _ =>
      (readText cs).map fun (text, rest) => (.str (String.ofList text), rest)
    | '[' :: rest =>
      if depth = 0 then none
      else (items (depth - 1) steps rest).map fun (vs, rest) => (.arr vs, rest)
    | '\x7b' :: rest =>
      if depth = 0 then none
      else match skipBlanks rest with
        | '\x7d' :: rest => some (.obj [], rest)
        | rest => do
          let (pairs, rest) ← pairsInline (depth - 1) steps rest
          let table ← inlineTable? pairs
          some (table, rest)
    | _ =>
      let (token, rest) := spanToken cs
      (tokenValue? token).map fun v => (v, rest)
termination_by structural steps => steps

/-- Reads the items of an array up to its closing bracket; a comma may follow the last. -/
def items (depth : Nat) : Nat → List Char → Option (List Json × List Char)
  | 0, _ => none
  | steps + 1, cs => do
    match ← skipLines (cs.length + 1) cs with
    | ']' :: rest => some ([], rest)
    | cs =>
      let (v, rest) ← value depth steps cs
      match ← skipLines (rest.length + 1) rest with
      | ']' :: rest => some ([v], rest)
      | ',' :: rest => (items depth steps rest).map fun (vs, rest) => (v :: vs, rest)
      | _ => none
termination_by structural steps => steps

/-- Reads the pairs of an inline table up to its closing brace, all on one line. -/
def pairsInline (depth : Nat) : Nat → List Char → Option (List Pair × List Char)
  | 0, _ => none
  | steps + 1, cs => do
    let (p, rest) ← pair depth steps cs
    match skipBlanks rest with
    | '\x7d' :: rest => some ([p], rest)
    | ',' :: rest => (pairsInline depth steps rest).map fun (ps, rest) => (p :: ps, rest)
    | _ => none
termination_by structural steps => steps

/-- Reads a pair of a dotted key and a value. -/
def pair (depth : Nat) : Nat → List Char → Option (Pair × List Char)
  | 0, _ => none
  | steps + 1, cs => do
    let (parts, rest) ← key cs
    let (path, name) ← splitKey parts
    match rest with
    | '=' :: rest =>
      let (v, rest) ← value depth steps (skipBlanks rest)
      some (⟨path, name, v⟩, rest)
    | _ => none
termination_by structural steps => steps

end

/-- A line of a document. -/
inductive Statement where
  | table (path : List String)
  | nextTable (path : List String)
  | pair (p : Pair)

/-- Reads the line that stands first; none of the lines is blank. -/
def statement (cs : List Char) : Option (Statement × List Char) :=
  match cs with
  | '[' :: '[' :: rest => do
    let (path, rest) ← key rest
    match rest with
    | ']' :: ']' :: rest => some (.nextTable path, rest)
    | _ => none
  | '[' :: rest => do
    let (path, rest) ← key rest
    match rest with
    | ']' :: rest => some (.table path, rest)
    | _ => none
  | _ => (pair depthLimit (2 * cs.length + 2) cs).map fun (p, rest) => (.pair p, rest)

/-- Reads the lines of a document. -/
def statements : Nat → List Char → Option (List Statement)
  | 0, _ => none
  | steps + 1, cs => do
    match ← skipLines (cs.length + 1) cs with
    | [] => some []
    | cs =>
      let (s, rest) ← statement cs
      let rest ← endLine rest
      (statements steps rest).map (s :: ·)

/-- The tables so far and the path of the one that the next pair goes to. -/
structure Progress where
  entries : Entries
  current : List String

/-- Lets a line build on the lines before it. -/
def Progress.add (p : Progress) (s : Statement) : Option Progress :=
  match s with
  | .table path => do
    let (above, name) ← splitKey path
    let entries ← p.entries.change false (fun _ es => es.openTable name) above .header
    some ⟨entries, path⟩
  | .nextTable path => do
    let (above, name) ← splitKey path
    let entries ← p.entries.change false (fun _ es => es.openNext name) above .header
    some ⟨entries, path⟩
  | .pair q => do
    let entries ← p.entries.change false (fun _ es => es.addPair q.path q.name q.value .header)
      p.current .header
    some ⟨entries, p.current⟩

/-- What follows a byte order mark. -/
def skipMark : List Char → List Char
  | '\uFEFF' :: rest => rest
  | cs => cs

/-- The value of a document: its tables as objects. -/
def document? (s : String) : Option Json := do
  let cs := skipMark s.toList
  let lines ← statements (cs.length + 1) cs
  let progress ← lines.foldlM Progress.add ⟨[], []⟩
  some (Node.table .header progress.entries).toJson

end RitualLedger.Toml
