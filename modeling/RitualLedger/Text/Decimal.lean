/-!
# Decimal numbers in text

Numbers that people type (settings, task indices, streak lengths) are read digit by digit from the
left: an optional plus sign, then at least one digit, and the value may not pass a given bound. The
first character that breaks a rule decides the fault that is reported.
-/

namespace RitualLedger.Text

/-- Why a text is not a number within its bound. -/
inductive NumberFault where
  | empty
  | invalidDigit
  | tooLarge
deriving DecidableEq, Repr

/-- The wording of a fault. -/
def NumberFault.message : NumberFault → String
  | .empty => "cannot parse integer from empty string"
  | .invalidDigit => "invalid digit found in string"
  | .tooLarge => "number too large to fit in target type"

/-- The value of a decimal digit. -/
def digitValue? (c : Char) : Option Nat :=
  if c.isDigit then some (c.toNat - '0'.toNat) else none

/-- Reads the digits on, with `value` the number read so far. -/
def readDigits (bound : Nat) : Nat → List Char → Except NumberFault Nat
  | value, [] => .ok value
  | value, c :: rest =>
    match digitValue? c with
    | none => .error .invalidDigit
    | some d => if 10 * value + d ≤ bound then readDigits bound (10 * value + d) rest
      else .error .tooLarge

/-- Reads a natural number of at most `bound`. -/
def readNat (bound : Nat) (s : String) : Except NumberFault Nat :=
  match s.toList with
  | [] => .error .empty
  | ['+'] => .error .invalidDigit
  | '+' :: digits => readDigits bound 0 digits
  | digits => readDigits bound 0 digits

/-- A word of 64 bits. -/
def readWord (s : String) : Except NumberFault UInt64 :=
  (readNat (UInt64.size - 1) s).map UInt64.ofNat

/-- A word of 32 bits. -/
def readHalfWord (s : String) : Except NumberFault UInt32 :=
  (readNat (UInt32.size - 1) s).map UInt32.ofNat

/-- A number as digits, with zeros in front up to a width. -/
def padded (width n : Nat) : String :=
  let digits := toString n
  String.ofList (List.replicate (width - digits.length) '0') ++ digits

end RitualLedger.Text
