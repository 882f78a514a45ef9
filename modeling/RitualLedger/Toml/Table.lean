import RitualLedger.Json.Basic

/-!
# Tables of a TOML document

A document is a tree of tables that its lines build up step by step. Each table remembers how it
came to be, because that decides which later lines may still add to it: a table named by a header
may not be named again; one that only led to another may be named once; one made by a dotted key
may only grow by dotted keys. A table written as a value is closed and is kept as a value.
-/

namespace RitualLedger.Toml

/-- How a table came to be. -/
inductive Origin where
  /-- Named by a header, or the document itself. -/
  | header
  /-- Led through by a header. -/
  | implied
  /-- Made by a dotted key. -/
  | dotted
deriving DecidableEq, Repr

/-- What a key stands for while the document is read. -/
inductive Node where
  | value (v : Json)
  | table (origin : Origin) (entries : List (String × Node))
  /-- The tables of an array, the one opened last in front. -/
  | tables (lastFirst : List (List (String × Node)))

/-- The keys of a table in the order of their first lines. -/
abbrev Entries := List (String × Node)

/-- The node of a key. -/
def Entries.find? (name : String) : Entries → Option Node
  | [] => none
  | (n, node) :: rest => if n = name then some node else Entries.find? name rest

/-- Puts a node in the place of a key, at the end for a new one. -/
def Entries.set (name : String) (node : Node) : Entries → Entries
  | [] => [(name, node)]
  | (n, old) :: rest => if n = name then (name, node) :: rest
    else (n, old) :: Entries.set name node rest

/-- Changes the table at the end of a path. Tables that are missing on the way are made, and
`dotted` says whether a dotted key or a header leads there. A dotted key may not lead through a
table that a header names. Of an array the path means the table opened last. -/
def Entries.change (dotted : Bool) (change : Origin → Entries → Option Entries) :
    List String → Origin → Entries → Option Entries
  | [], origin, entries => change origin entries
  | name :: path, _, entries =>
    match entries.find? name with
    | none =>
      let origin := if dotted then Origin.dotted else Origin.implied
      (Entries.change dotted change path origin []).map fun sub =>
        entries.set name (.table origin sub)
    | some (.table origin sub) =>
      if dotted ∧ origin = .header then none
      else (Entries.change dotted change path origin sub).map fun sub =>
        entries.set name (.table origin sub)
    | some (.tables (last :: earlier)) =>
      (Entries.change dotted change path .header last).map fun last =>
        entries.set name (.tables (last :: earlier))
    | some (.tables []) => none
    | some (.value _) => none

/-- Adds a key with a value to the table of a dotted path below a table. -/
def Entries.addPair (path : List String) (name : String) (v : Json) (origin : Origin)
    (entries : Entries) : Option Entries :=
  Entries.change true (fun found entries =>
    if (found = .dotted) = path.isEmpty then none
    else match entries.find? name with
      | some _ => none
      | none => some (entries.set name (.value v))) path origin entries

/-- Opens the table that a header names. -/
def Entries.openTable (name : String) (entries : Entries) : Option Entries :=
  match entries.find? name with
  | none => some (entries.set name (.table .header []))
  | some (.table .implied sub) => some (entries.set name (.table .header sub))
  | _ => none

/-- Opens a further table of the array that a header names. -/
def Entries.openNext (name : String) (entries : Entries) : Option Entries :=
  match entries.find? name with
  | none => some (entries.set name (.tables [[]]))
  | some (.tables ts) => some (entries.set name (.tables ([] :: ts)))
  | _ => none

mutual

/-- The value that a node stands for once the document is read. -/
def Node.toJson : Node → Json
  | .value v => v
  | .table _ entries => Json.object (Node.entriesToFields entries)
  | .tables lastFirst => .arr (Node.tablesToItems lastFirst [])

/-- The fields of a table. -/
def Node.entriesToFields : List (String × Node) → Json.Fields
  | [] => []
  | (name, node) :: rest => (name, node.toJson) :: Node.entriesToFields rest

/-- The tables of an array in their order, in front of those that follow. -/
def Node.tablesToItems : List (List (String × Node)) → List Json → List Json
  | [], following => following
  | entries :: rest, following =>
    Node.tablesToItems rest (Json.object (Node.entriesToFields entries) :: following)

end

end RitualLedger.Toml
