import RitualLedger.Rule.Scalar

/-!
# Operators

An operator compares the value of a trigger with the comparand of a condition. Equality is defined
within each kind of scalars, order on numbers only. A spelling that names no operator is kept, so
that documents with it still load, and fails when it is tested.
-/

namespace RitualLedger

/-- A comparison, or a spelling that names none. -/
inductive Operator where
  | eq
  | ne
  | gt
  | lt
  | ge
  | le
  | unknown (spelling : String)
deriving DecidableEq, Repr

/-- Why a condition cannot be tested. -/
inductive ConditionError where
  | unknownOperator (spelling : String)
  | incomparable (operator : Operator) (lhs rhs : Scalar)
deriving DecidableEq, Repr

namespace Operator

/-- The canonical spelling. -/
def text : Operator → String
  | .eq => "=="
  | .ne => "!="
  | .gt => ">"
  | .lt => "<"
  | .ge => ">="
  | .le => "<="
  | .unknown spelling => spelling

/-- The spellings of the operators. -/
def spellings : List (String × Operator) :=
  [("==", .eq), ("eq", .eq), ("!=", .ne), ("neq", .ne), (">", .gt), ("gt", .gt),
   ("<", .lt), ("lt", .lt), (">=", .ge), ("gte", .ge), ("<=", .le), ("lte", .le)]

/-- The operator of a spelling. -/
def ofText (s : String) : Operator := (spellings.lookup s).getD (.unknown s)

/-- The operators that need an order. -/
def isOrdinal : Operator → Bool
  | .gt | .lt | .ge | .le => true
  | _ => false

/-- Applies the operator to the value of a trigger and a comparand. -/
def test (o : Operator) (lhs rhs : Scalar) : Except ConditionError Bool :=
  match o, lhs, rhs with
  | .unknown s, _, _ => .error (.unknownOperator s)
  | .eq, .number a, .number b => .ok (a == b)
  | .eq, .text a, .text b => .ok (a == b)
  | .eq, .flag a, .flag b => .ok (a == b)
  | .ne, .number a, .number b => .ok (a != b)
  | .ne, .text a, .text b => .ok (a != b)
  | .ne, .flag a, .flag b => .ok (a != b)
  | .gt, .number a, .number b => .ok (decide (a > b))
  | .lt, .number a, .number b => .ok (decide (a < b))
  | .ge, .number a, .number b => .ok (decide (a ≥ b))
  | .le, .number a, .number b => .ok (decide (a ≤ b))
  | o, lhs, rhs => .error (.incomparable o lhs rhs)

instance : Document Operator where
  encode o := .str o.text
  read? _
    | .str s => some (ofText s)
    | _ => none

end Operator

/-- The wording of a failed test. -/
def ConditionError.message : ConditionError → String
  | .unknownOperator s => s!"unknown operator '{s}'"
  | .incomparable o lhs rhs =>
    "cannot apply '" ++ o.text ++ "' to " ++ lhs.described ++ " and " ++ rhs.described

end RitualLedger
