import RitualLedger.Store.Basic
import RitualLedger.Store.Clause

/-!
# Queries

A query selects documents of one collection by a filter over their bodies, in order of their first
writes or newest first, and no more than a limit. It is answered by a *statement* with arguments:
first the collection, then those of the filter, and last the limit. Documents are looked at in their
order, and no further than the limit asks for.
-/

namespace RitualLedger

/-- A selection of documents of a collection. -/
structure Query where
  collection : String
  filter : Option Filter
  newestFirst : Bool
  limit : Option UInt64

/-- A statement that selects documents:
`SELECT id, body FROM documents WHERE collection = ? AND … ORDER BY rowid … LIMIT ?`. -/
structure Statement where
  clause : Option Clause
  newestFirst : Bool
  limited : Bool

namespace Query

/-- All documents of a collection. -/
def all (collection : String) : Query := ⟨collection, none, false, none⟩

/-- What a query asks of documents of its collection, with the arguments up to there. -/
def condition (q : Query) : Option Clause × Array Atom :=
  let args := #[Atom.text q.collection]
  match q.filter with
  | none => (none, args)
  | some f =>
    let (clause, args) := f.compile args
    (some clause, args)

/-- The statement of a query, and its arguments. -/
def statement (q : Query) : Statement × Array Atom :=
  let (clause, args) := q.condition
  let args :=
    match q.limit with
    | none => args
    | some limit => args.push (.int (min limit.toNat Int64.maxValue.toInt))
  (⟨clause, q.newestFirst, q.limit.isSome⟩, args)

end Query

namespace Statement

/-- The first documents that pass a test, at most some number of them. -/
def firstPassing (test : Json → Except StoreError Bool) :
    Nat → List (String × Json) → Except StoreError (List (String × Json))
  | 0, _ | _, [] => .ok []
  | n + 1, d :: rest => do
    if ← test d.2 then .ok (d :: (← firstPassing test n rest)) else firstPassing test (n + 1) rest

/-- The test of a clause whose arguments follow the first one, and the number of the argument behind
them; none if the clause is too high to be tested. It is joined to the test of the collection, which
takes one step more. -/
def test? (args : Array Atom) : Option Clause →
    Option ((Json → Except StoreError Bool) × Nat)
  | none => some (fun _ => .ok true, 1)
  | some c => do
    let (e, next) ← c.expression? 1
    if e.isNever then some (fun _ => .ok false, next)
    else if Expression.maxHeight ≤ e.height then none
    else if e.failsAtOnce then some (fun _ => .ok false, next)
    else some (fun body => e.testOutermost args body, next)

/-- The documents of a collection in the order of a statement. -/
def candidates (st : Statement) (args : Array Atom) (s : Store) : List (String × Json) :=
  match (args[0]? : Option Atom) with
  | some (.text collection) =>
    let docs := s.inCollection collection
    if st.newestFirst then docs.reverse else docs
  | _ => []

/-- The most documents that a statement asks for among some candidates, with the number of the
argument that limits them. -/
def most (st : Statement) (args : Array Atom) (n : Nat) (docs : List (String × Json)) : Nat :=
  match st.limited, args[n]? with
  | true, some (.int limit) => limit.toNat
  | _, _ => docs.length

/-- The most arguments of a statement. -/
def maxArguments : Nat := 32766

/-- Answers a statement. -/
def run (st : Statement) (args : Array Atom) (s : Store) :
    Except StoreError (List (String × Json)) :=
  if maxArguments < args.size then .error (.queryFailed "the filter has too many parameters")
  else match test? args st.clause with
    | none => .error (.queryFailed "the filter nests too deeply")
    | some (test, next) =>
      let docs := st.candidates args s
      firstPassing test (st.most args next docs) docs

end Statement

/-- Answers a query. -/
def Query.run (q : Query) (s : Store) : Except StoreError (List (String × Json)) :=
  let (statement, args) := q.statement
  statement.run args s

end RitualLedger
