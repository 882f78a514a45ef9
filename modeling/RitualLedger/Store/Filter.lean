import RitualLedger.Json.Path
import RitualLedger.Json.Printer

/-!
# Filters

A filter is a condition on the body of a document: a part of it equals a value, any of some filters
holds, or all of them hold. `any` of no filters holds of nothing and `all` of none of everything.

Equality is equality of *atoms*: truth values are the integers 0 and 1, numbers compare by value, an
integer too large for a signed word is the nearest binary64 number, and an array or an object is its
text. Null and a missing part have no atom; nothing equals them, and a filter for null asks whether
there is an atom at all.

A filter is compiled to a *clause* with question marks, and to their arguments. The arguments are
pushed onto those of the statement that the clause will stand in, from left to right; so which
argument a question mark gets is a matter of how many there are before it.
-/

namespace RitualLedger

/-! ## Atoms -/

/-- What parts of documents are compared by, and what statements take as arguments. -/
inductive Atom where
  | int (n : Int)
  | real (x : Real64)
  | text (s : String)
deriving DecidableEq, Repr

namespace Atom

/-- The atom of a value; null has none. -/
def ofJson? : Json → Option Atom
  | .null => none
  | .bool b => some (.int (if b then 1 else 0))
  | .int n =>
    if Int64.minValue.toInt ≤ n ∧ n ≤ Int64.maxValue.toInt then some (.int n)
    else some (((Real64.ofInt n).map Atom.real).getD (.int n))
  | .real x => some (.real x)
  | .str s => some (.text s)
  | j => some (.text j.compact)

/-- The atom of a part of a stored document, whose numbers are read from their text. -/
def ofPart? : Json → Option Atom
  | .real x => some (.real x.widened)
  | j => ofJson? j

/-- Equality by value. -/
def same : Atom → Atom → Bool
  | .int a, .int b => a == b
  | .int n, .real x => x.sameAsInt n
  | .real x, .int n => x.sameAsInt n
  | .real x, .real y => x.sameAs y
  | .text s, .text t => s == t
  | _, _ => false

/-- Comparison, which is unknown where something is missing. -/
def equal? : Option Atom → Option Atom → Option Bool
  | some a, some b => some (a.same b)
  | _, _ => none

end Atom

/-! ## Conditions -/

/-- A condition on the body of a document. -/
inductive Filter where
  /-- The part at a path equals a value. -/
  | eq (field : String) (value : Json)
  | any (filters : List Filter)
  | all (filters : List Filter)

/-- What clauses are joined by. -/
inductive Junction where
  | and
  | or
deriving DecidableEq, Repr

/-- A condition in a statement. -/
inductive Clause where
  /-- `1` or `0` -/
  | constant (b : Bool)
  /-- `json_extract(body, ?) = ?` -/
  | equals
  /-- `json_extract(body, ?) IS NULL` -/
  | isNull
  /-- `(first AND … AND …)` or `(first OR … OR …)` -/
  | joined (j : Junction) (first : Clause) (rest : List Clause)

namespace Filter

mutual

/-- The clause of a filter, with its arguments behind those of others. -/
def compile : Filter → Array Atom → Clause × Array Atom
  | .eq field value, args =>
    let args := args.push (.text ("$." ++ field))
    match Atom.ofJson? value with
    | some a => (.equals, args.push a)
    | none => (.isNull, args)
  | .any [], args => (.constant false, args)
  | .all [], args => (.constant true, args)
  | .any (f :: rest), args =>
    let (first, args) := f.compile args
    let (rest, args) := compileAll rest args
    (.joined .or first rest, args)
  | .all (f :: rest), args =>
    let (first, args) := f.compile args
    let (rest, args) := compileAll rest args
    (.joined .and first rest, args)

/-- The clauses of some filters, each with its arguments behind those of the ones before. -/
def compileAll : List Filter → Array Atom → List Clause × Array Atom
  | [], args => ([], args)
  | f :: rest, args =>
    let (first, args) := f.compile args
    let (rest, args) := compileAll rest args
    (first :: rest, args)

end

end Filter

end RitualLedger
