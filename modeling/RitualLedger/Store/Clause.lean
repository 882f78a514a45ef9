import RitualLedger.Error
import RitualLedger.Json.Path
import RitualLedger.Store.Filter

/-!
# Clauses as they are tested

A clause is tested as an *expression* of conjunctions and disjunctions of two, in which each
question mark has become the number of its argument. It is tested from left to right and no further
than it takes to know the outcome; what is unknown counts as what fails. So a fault in a path is
noticed only when the test gets there. What holds or fails whatever the body is known before.
-/

namespace RitualLedger

/-! ## Outcomes -/

/-- Whether both of two things hold that may be unknown. -/
def bothHold : Option Bool → Option Bool → Option Bool
  | some false, _ | _, some false => some false
  | some true, some true => some true
  | _, _ => none

/-- Whether one of two things holds that may be unknown. -/
def eitherHolds : Option Bool → Option Bool → Option Bool
  | some true, _ | _, some true => some true
  | some false, some false => some false
  | _, _ => none

/-! ## Expressions -/

/-- A clause as it is tested. Arguments are counted from zero. -/
inductive Expression where
  | constant (b : Bool)
  | equals (path value : Nat)
  | isNull (path : Nat)
  | both (left right : Expression)
  | either (left right : Expression)

namespace Expression

/-- The length of the longest way down the expression, where a comparison takes three steps. -/
def height : Expression → Nat
  | .constant _ => 1
  | .equals _ _ | .isNull _ => 3
  | .both l r | .either l r => max l.height r.height + 1

/-- The greatest height that can be tested. -/
def maxHeight : Nat := 1000

/-- Accepts an expression that can be tested. -/
def bounded? (e : Expression) : Option Expression := if e.height ≤ maxHeight then some e else none

/-- Whether an expression is the constant that fails. -/
def isNever : Expression → Bool
  | .constant false => true
  | _ => false

/-- Two expressions joined. A conjunction fails if one of the two is known to fail. -/
def join? : Junction → Expression → Expression → Option Expression
  | .and, l, r =>
    if l.isNever || r.isNever then some (.constant false) else (Expression.both l r).bounded?
  | .or, l, r => (Expression.either l r).bounded?

/-- The outcome that an expression has whatever the body, if there is one. -/
def outcome? : Expression → Option Bool
  | .constant b => some b
  | .equals _ _ | .isNull _ => none
  | .both l r => bothHold l.outcome? r.outcome?
  | .either l r => eitherHolds l.outcome? r.outcome?

/-- Whether an expression looks at the body. -/
def looksAtBody : Expression → Bool
  | .constant _ => false
  | .equals _ _ | .isNull _ => true
  | .both l r | .either l r => l.looksAtBody || r.looksAtBody

/-- Whether some member of the outermost conjunction fails without a look at the body. -/
def failsAtOnce : Expression → Bool
  | .both l r => l.failsAtOnce || r.failsAtOnce
  | e => !e.looksAtBody && e.outcome? == some false

/-- The atom of the part of a body that an argument leads to. -/
def extract (args : Array Atom) (body : Json) (path : Nat) : Except StoreError (Option Atom) :=
  match args[path]? with
  | some (.text text) =>
    match (Json.Path.ofArgument text).find body with
    | .ok part => .ok (part.bind Atom.ofPart?)
    | .error .malformed => .error (.queryFailed "a field of the filter is no path")
  | some (.int _) | some (.real _) => .error (.queryFailed "a number is no path")
  | none => .ok none

/-- Tests an expression. -/
def test (args : Array Atom) (body : Json) : Expression → Except StoreError Bool
  | .constant b => .ok b
  | .equals path value => do
    let part ← extract args body path
    .ok ((Atom.equal? part args[value]?).getD false)
  | .isNull path => do
    let part ← extract args body path
    .ok part.isNone
  | .both l r =>
    match (Expression.both l r).outcome? with
    | some b => .ok b
    | none => do if ← l.test args body then r.test args body else .ok false
  | .either l r =>
    match (Expression.either l r).outcome? with
    | some b => .ok b
    | none => do if ← l.test args body then .ok true else r.test args body

/-- Tests the members of the outermost conjunction one after the other. -/
def testOutermost (args : Array Atom) (body : Json) : Expression → Except StoreError Bool
  | .both l r => do if ← l.testOutermost args body then r.testOutermost args body else .ok false
  | e => e.test args body

end Expression

/-! ## From clauses -/

namespace Clause

mutual

/-- The expression of a clause whose arguments have numbers from some number on, and the number
that comes next; none if it is too high to be tested. -/
def expression? : Clause → Nat → Option (Expression × Nat)
  | .constant b, n => some (.constant b, n)
  | .equals, n => some (.equals n (n + 1), n + 2)
  | .isNull, n => some (.isNull n, n + 1)
  | .joined j first rest, n => do
    let (e, n) ← first.expression? n
    expressionFrom? j e rest n

/-- The expressions of some clauses, joined one after the other to those before. -/
def expressionFrom? (j : Junction) (before : Expression) :
    List Clause → Nat → Option (Expression × Nat)
  | [], n => some (before, n)
  | c :: rest, n => do
    let (e, n) ← c.expression? n
    let joined ← Expression.join? j before e
    expressionFrom? j joined rest n

end

end Clause

end RitualLedger
