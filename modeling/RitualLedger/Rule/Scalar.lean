import RitualLedger.Document
import RitualLedger.Text.Quoted

/-!
# Scalars

What a trigger carries and what a condition compares it with: a truth value, a signed word or a
text. Scalars of different kinds are never equal and never ordered.
-/

namespace RitualLedger

/-- A truth value, a number or a text. -/
inductive Scalar where
  | flag (b : Bool)
  | number (n : Int64)
  | text (s : String)
deriving DecidableEq, Repr

namespace Scalar

/-- The three kinds of scalars. -/
inductive Kind where
  | boolean
  | number
  | text
deriving DecidableEq, Repr

/-- The name of a kind in messages. -/
def Kind.name : Kind → String
  | .boolean => "boolean"
  | .number => "number"
  | .text => "text"

/-- The kind of a scalar. -/
def kind : Scalar → Kind
  | .flag _ => .boolean
  | .number _ => .number
  | .text _ => .text

/-- The value as plain text. -/
def display : Scalar → String
  | .flag true => "true"
  | .flag false => "false"
  | .number n => toString n.toInt
  | .text s => s

/-- The value with its kind, as messages about operands show it. -/
def described : Scalar → String
  | .flag true => "Flag(true)"
  | .flag false => "Flag(false)"
  | .number n => "Number(" ++ toString n.toInt ++ ")"
  | .text s => "Text(" ++ Text.quoted s ++ ")"

instance : Document Scalar where
  encode
    | .flag b => .bool b
    | .number n => encode n
    | .text s => .str s
  read? format
    | .bool b => some (.flag b)
    | .int n => (Document.read? format (.int n)).map .number
    | .str s => some (.text s)
    | _ => none

end Scalar

end RitualLedger
