import RitualLedger.Json.Basic
import RitualLedger.Json.Parser

/-!
# Numbers, truth values and dates in TOML

A value that is neither a text nor a bracket is one unbroken token, and its shape decides what it
is: a truth value, an integer, a float, or a date with or without a time. Integers are signed words
of 64 bits, also in hexadecimal, octal and binary; an underscore may stand between two digits.

No document has a place for a date of TOML, and none for an infinite float. A date is read as an
object with one field that no document has, and an infinite float as the number zero. Digits that
exceed every finite float are refused, unless a minus stands in front of them.
-/

namespace RitualLedger.Toml

/-- The name of the only field of a date. -/
def dateField : String := "(date)"

/-- Removes the underscores, each of which must stand between two digits of the given kind. -/
def plainDigits? (isDigit : Char → Bool) : List Char → Option (List Char)
  | [] => none
  | [c] => if isDigit c then some [c] else none
  | c :: '_' :: rest => if isDigit c then (plainDigits? isDigit rest).map (c :: ·) else none
  | c :: rest => if isDigit c then (plainDigits? isDigit rest).map (c :: ·) else none

/-- The value of digits in a base. -/
def baseValue? (base : Nat) (cs : List Char) : Option Nat :=
  let isDigit (c : Char) : Bool := (Json.hexValue? c).any (· < base)
  (plainDigits? isDigit cs).bind fun ds =>
    ds.foldlM (fun n c => (Json.hexValue? c).map (base * n + ·)) 0

/-- Splits a sign off; true means minus. -/
def sign : List Char → Option Bool × List Char
  | '-' :: rest => (some true, rest)
  | '+' :: rest => (some false, rest)
  | cs => (none, cs)

/-- The digits of a whole number without zeros in front. -/
def wholeDigits? (cs : List Char) : Option (List Char) :=
  match plainDigits? Char.isDigit cs with
  | some ('0' :: _ :: _) => none
  | ds => ds

/-- An integer, if it is a signed word. -/
def word? (negative : Bool) (n : Nat) : Option Json :=
  let value : Int := if negative then -n else n
  if Int64.minValue.toInt ≤ value ∧ value ≤ Int64.maxValue.toInt then some (.int value) else none

/-- Reads a token as an integer. -/
def integer? (cs : List Char) : Option Json :=
  match cs with
  | '0' :: 'x' :: ds => (baseValue? 16 ds).bind (word? false)
  | '0' :: 'o' :: ds => (baseValue? 8 ds).bind (word? false)
  | '0' :: 'b' :: ds => (baseValue? 2 ds).bind (word? false)
  | _ =>
    let (s, body) := sign cs
    (wholeDigits? body).bind fun ds => word? (s.getD false) (Json.digitsValue ds)

/-- Splits at the first character with a property, which is dropped. -/
def splitAt? (p : Char → Bool) : List Char → Option (List Char × List Char)
  | [] => none
  | c :: rest => if p c then some ([], rest)
    else (splitAt? p rest).map fun (a, b) => (c :: a, b)

/-- The value of an exponent. -/
def exponent? (cs : List Char) : Option Int :=
  let (s, body) := sign cs
  (plainDigits? Char.isDigit body).map fun ds =>
    let n : Int := Json.digitsValue ds
    if s = some true then -n else n

/-- Reads a token as a float. -/
def float? (cs : List Char) : Option Json :=
  let (s, body) := sign cs
  let negative := s.getD false
  let infinite := Json.real ⟨negative, 0, Real64.minExponent⟩
  let build (whole fraction : List Char) (e : Int) : Option Json :=
    let digits := Json.digitsValue (whole ++ fraction)
    match Real64.ofDecimal negative digits (e - fraction.length) with
    | some x => some (.real x)
    | none => if negative then some infinite else none
  if body = ['i', 'n', 'f'] ∨ body = ['n', 'a', 'n'] then some infinite
  else
    let isMark (c : Char) : Bool := c = 'e' || c = 'E'
    let (front, e) : List Char × Option (List Char) :=
      match splitAt? isMark body with
      | some (a, b) => (a, some b)
      | none => (body, none)
    match splitAt? (· = '.') front, e with
    | some (whole, fraction), e => do
      let whole ← wholeDigits? whole
      let fraction ← plainDigits? Char.isDigit fraction
      let e ← match e with
        | some b => exponent? b
        | none => some 0
      build whole fraction e
    | none, some b => do
      let whole ← wholeDigits? front
      let e ← exponent? b
      build whole [] e
    | none, none => none

/-! ## Dates -/

/-- The value of a fixed number of digits. -/
def fixed? (cs : List Char) : Option Nat :=
  if cs.all Char.isDigit then some (Json.digitsValue cs) else none

/-- Whether characters are a date of the calendar. -/
def isDate (cs : List Char) : Bool :=
  match cs with
  | [a, b, c, d, '-', e, f, '-', g, h] =>
    match fixed? [a, b, c, d], fixed? [e, f], fixed? [g, h] with
    | some y, some m, some n =>
      let leap := y % 4 = 0 ∧ (y % 100 ≠ 0 ∨ y % 400 = 0)
      let most := if m = 2 then (if leap then 29 else 28)
        else if m = 4 ∨ m = 6 ∨ m = 9 ∨ m = 11 then 30 else 31
      1 ≤ m ∧ m ≤ 12 ∧ 1 ≤ n ∧ n ≤ most
    | _, _, _ => false
  | _ => false

/-- The rest after a time of day, if one stands in front. -/
def dropTime? (cs : List Char) : Option (List Char) :=
  match cs with
  | a :: b :: ':' :: c :: d :: ':' :: e :: f :: rest =>
    match fixed? [a, b], fixed? [c, d], fixed? [e, f] with
    | some h, some m, some s =>
      if h < 24 ∧ m < 60 ∧ s ≤ 60 then
        match rest with
        | '.' :: after =>
          if (after.takeWhile Char.isDigit).isEmpty then none
          else some (after.dropWhile Char.isDigit)
        | _ => some rest
      else none
    | _, _, _ => none
  | _ => none

/-- Whether characters are a zone, or nothing. -/
def isZone (cs : List Char) : Bool :=
  match cs with
  | [] | ['Z'] | ['z'] => true
  | [s, a, b, ':', c, d] =>
    (s = '+' || s = '-') &&
      match fixed? [a, b], fixed? [c, d] with
      | some h, some m => h < 24 ∧ m < 60
      | _, _ => false
  | _ => false

/-- Whether a token is a date, a time, or both. -/
def isDateTime (cs : List Char) : Bool :=
  dropTime? cs = some [] ||
    (isDate (cs.take 10) &&
      match cs.drop 10 with
      | [] => true
      | c :: rest => (c = 'T' || c = 't' || c = ' ') && (dropTime? rest).any isZone)

/-- The characters of a token. -/
def isTokenChar (c : Char) : Bool :=
  c.isAlphanum || c = '+' || c = '-' || c = '_' || c = '.' || c = ':'

/-- Splits off the token in front. A date and a time with one blank between are one token. -/
def spanToken (cs : List Char) : List Char × List Char :=
  let (token, rest) := cs.span isTokenChar
  match rest with
  | ' ' :: after =>
    if isDate token ∧ (after.head?.any Char.isDigit) then
      let (time, rest) := after.span isTokenChar
      (token ++ ' ' :: time, rest)
    else (token, rest)
  | _ => (token, rest)

/-- The value of a token. -/
def tokenValue? (cs : List Char) : Option Json :=
  if cs = ['t', 'r', 'u', 'e'] then some (.bool true)
  else if cs = ['f', 'a', 'l', 's', 'e'] then some (.bool false)
  else match integer? cs with
    | some v => some v
    | none => match float? cs with
      | some v => some v
      | none =>
        if isDateTime cs then some (.obj [(dateField, .str (String.ofList cs))]) else none

end RitualLedger.Toml
