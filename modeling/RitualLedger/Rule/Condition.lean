import RitualLedger.Error
import RitualLedger.Rule.Operator
import RitualLedger.Rule.Trigger
import RitualLedger.Rule.Action
import RitualLedger.Text.Blank

/-!
# Conditions

A condition belongs to a ritual: when a trigger of its kind fires and the operator holds between
the trigger's value and the comparand, its actions follow. `validate` accepts the conditions that
a ritual may be created with, and reports the first rule that a condition breaks; its main point is
that an accepted condition can always be tested. `matchingActions` collects the actions of all
conditions that pass, in their order; a condition that cannot be tested is passed over.
-/

namespace RitualLedger

/-- A rule of a ritual. -/
structure Condition where
  trigger : TriggerKind
  operator : Operator
  comparand : Scalar
  actions : List Action
deriving DecidableEq, Repr

namespace Condition

instance : Document Condition where
  encode c := .obj [("actions", encode c.actions), ("comparand", encode c.comparand),
    ("operator", encode c.operator), ("trigger", encode c.trigger)]
  read? := Document.record do
    return {
      trigger := ← Document.required "trigger"
      operator := ← Document.required "operator"
      comparand := ← Document.required "comparand"
      actions := ← Document.defaulted "actions" [] }

/-- Whether the condition is about a kind of event. -/
def listensFor (c : Condition) (kind : TriggerKind) : Bool := c.trigger == kind

/-- Tests the value of a trigger. -/
def test (c : Condition) (value : Scalar) : Except ConditionError Bool :=
  c.operator.test value c.comparand

/-! ## Acceptance -/

/-- The largest amount that a balance can hold. -/
def largestAmount : Int := Int64.maxValue.toInt

/-- What is wrong with an amount of tokens, if anything. -/
def amountFault? (type : String) (amount : UInt64) : Option String :=
  if amount = 0 then some (type ++ " amount must be positive")
  else if largestAmount < amount.toNat then some s!"{type} amount {amount} is too large"
  else none

/-- What is wrong with an action in a ritual of some number of tasks, if anything. -/
def actionFault? (taskCount : Nat) (a : Action) : Option String :=
  match a with
  | .reward amount | .penalty amount => amountFault? a.typeName amount
  | .unlockTask index =>
    if taskCount ≤ index.toNat then
      some s!"unlock_task refers to task {index} but the ritual has {taskCount}"
    else none
  | .notify message => if Text.isBlank message then some "notify message is empty" else none

/-- What is wrong with a comparand under an operator, if anything, when a kind of trigger carries
values of a certain kind. -/
def comparandFault? (c : Condition) (expected : Scalar.Kind) : Option String :=
  if c.comparand.kind ≠ expected then
    some (c.trigger.text ++ " trigger needs a " ++ expected.name ++ " comparand, got "
      ++ c.comparand.kind.name)
  else if c.operator.isOrdinal ∧ expected ≠ .number then
    some ("operator '" ++ c.operator.text ++ "' is not defined for " ++ expected.name ++ " values")
  else match c.comparand with
    | .number n =>
      if n.toInt < 0 then some ("comparand " ++ toString n.toInt ++ " must not be negative")
      else none
    | _ => none

/-- The first rule that a condition breaks in a ritual of some number of tasks. -/
def fault? (c : Condition) (taskCount : Nat) : Option String :=
  match c.operator with
  | .unknown s => some s!"unknown operator '{s}'"
  | _ =>
    match c.trigger.valueKind? with
    | none => some ("unknown trigger '" ++ c.trigger.text ++ "'")
    | some expected =>
      match c.comparandFault? expected with
      | some reason => some reason
      | none =>
        if c.actions.isEmpty then some "condition has no actions"
        else c.actions.findSome? (actionFault? taskCount)

/-- Accepts a condition, given its place and the number of tasks of its ritual. -/
def validate (c : Condition) (index taskCount : Nat) : Except ValidationError Unit :=
  match c.fault? taskCount with
  | some reason => .error (.invalidCondition index reason)
  | none => .ok ()

/-! ## Firing -/

/-- Whether the condition fires on a trigger. -/
def fires (c : Condition) (t : Trigger) : Bool :=
  c.listensFor t.kind &&
    match c.test t.value with
    | .ok passed => passed
    | .error _ => false

/-- The actions of the conditions that fire, in order and with repetitions. -/
def matchingActions (cs : List Condition) (t : Trigger) : List Action :=
  (cs.filter (·.fires t)).flatMap (·.actions)

end Condition

end RitualLedger
