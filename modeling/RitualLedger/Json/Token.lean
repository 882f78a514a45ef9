import RitualLedger.Json.Basic
import RitualLedger.Number.Stepwise

/-!
# Texts and numbers in JSON

Texts and numbers are read under the JSON grammar: no raw controls in texts, no half of a surrogate
pair, no needless zeros. Integers of a signed or an unsigned 64-bit word stay integers; all other
numbers are read by `Real64.ofScaled` from their first digits, as many as a word can hold.

A text or a number that nobody asks for is skipped. Skipping checks the grammar alone, so it
accepts halves of surrogate pairs and numbers of any size.
-/

namespace RitualLedger.Json

/-- The characters that may stand between tokens. -/
def isSpace (c : Char) : Bool := c = ' ' || c = '\t' || c = '\n' || c = '\r'

/-- What follows the white space. -/
def skipSpace (cs : List Char) : List Char := cs.dropWhile isSpace

/-! ## Texts -/

/-- The value of a hexadecimal digit. -/
def hexValue? (c : Char) : Option Nat :=
  if c.isDigit then some (c.toNat - '0'.toNat)
  else if 'a' ≤ c ∧ c ≤ 'f' then some (c.toNat - 'a'.toNat + 10)
  else if 'A' ≤ c ∧ c ≤ 'F' then some (c.toNat - 'A'.toNat + 10)
  else none

/-- The value of hexadecimal digits. -/
def hexNumber? (cs : List Char) : Option Nat :=
  cs.foldlM (fun n c => (hexValue? c).map (16 * n + ·)) 0

/-- The character of a code point; surrogates have none. -/
def charOf? (n : Nat) : Option Char :=
  if h : n.isValidChar then some (Char.ofNatAux n h) else none

/-- The character of a surrogate pair. -/
def pairChar? (high low : Nat) : Option Char :=
  if 0xD800 ≤ high ∧ high < 0xDC00 ∧ 0xDC00 ≤ low ∧ low < 0xE000 then
    charOf? (0x10000 + (high - 0xD800) * 0x400 + (low - 0xDC00))
  else none

/-- The character that a letter after a backslash stands for. -/
def escaped? (c : Char) : Option Char :=
  match c with
  | '"' => some '"'
  | '\\' => some '\\'
  | '/' => some '/'
  | 'b' => some '\x08'
  | 'f' => some '\x0c'
  | 'n' => some '\n'
  | 'r' => some '\r'
  | 't' => some '\t'
  | _ => none

/-- Reads a text up to its closing quote; gives its characters and the rest. -/
def textBody : List Char → Option (List Char × List Char)
  | [] => none
  | '"' :: rest => some ([], rest)
  | '\\' :: 'u' :: a :: b :: c :: d :: rest =>
    match hexNumber? [a, b, c, d] with
    | none => none
    | some unit =>
      if 0xD800 ≤ unit ∧ unit < 0xDC00 then
        match rest with
        | '\\' :: 'u' :: e :: f :: g :: h :: rest => do
          let x ← pairChar? unit (← hexNumber? [e, f, g, h])
          let (following, left) ← textBody rest
          some (x :: following, left)
        | _ => none
      else do
        let x ← charOf? unit
        let (following, left) ← textBody rest
        some (x :: following, left)
  | '\\' :: c :: rest => do
    let x ← escaped? c
    let (following, left) ← textBody rest
    some (x :: following, left)
  | c :: rest =>
    if c.toNat < 0x20 then none
    else do
      let (following, left) ← textBody rest
      some (c :: following, left)

/-- What follows a text. -/
def skipText : List Char → Option (List Char)
  | [] => none
  | '"' :: rest => some rest
  | '\\' :: 'u' :: a :: b :: c :: d :: rest =>
    match hexNumber? [a, b, c, d] with
    | none => none
    | some _ => skipText rest
  | '\\' :: c :: rest =>
    match escaped? c with
    | none => none
    | some _ => skipText rest
  | c :: rest => if c.toNat < 0x20 then none else skipText rest

/-! ## Numbers -/

/-- The digits in front of a text, and what follows them. -/
def spanDigits (cs : List Char) : List Char × List Char := cs.span Char.isDigit

/-- The value of decimal digits. -/
def digitsValue (ds : List Char) : Nat := Nat.ofDigitChars 10 ds 0

/-- A number as it is written. -/
structure Numeral where
  negative : Bool
  whole : List Char
  /-- The digits after the point; no digits when there is no point. -/
  fraction : List Char
  exponent : Option Int

/-- A fraction, if the text has one: its digits, at least one, and the rest. -/
def fractionPart : List Char → Option (List Char × List Char)
  | '.' :: rest =>
    let (ds, left) := spanDigits rest
    if ds.isEmpty then none else some (ds, left)
  | cs => some ([], cs)

/-- The sign in front of an exponent. -/
def exponentSign : List Char → Bool × List Char
  | '-' :: rest => (true, rest)
  | '+' :: rest => (false, rest)
  | cs => (false, cs)

/-- An exponent, if the text has one: its value and the rest. -/
def exponentPart (cs : List Char) : Option (Option Int × List Char) :=
  match cs with
  | c :: rest =>
    if c = 'e' ∨ c = 'E' then
      let (negative, rest) := exponentSign rest
      let (ds, left) := spanDigits rest
      if ds.isEmpty then none
      else
        let n : Int := digitsValue ds
        some (some (if negative then -n else n), left)
    else some (none, cs)
  | [] => some (none, [])

/-- Reads a number without its sign. -/
def unsignedNumeral (negative : Bool) (cs : List Char) : Option (Numeral × List Char) := do
  let (whole, rest) := spanDigits cs
  if whole.isEmpty ∨ (whole.head? = some '0' ∧ 1 < whole.length) then none
  let (fraction, rest) ← fractionPart rest
  let (exponent, rest) ← exponentPart rest
  some (⟨negative, whole, fraction, exponent⟩, rest)

/-- Reads a number. -/
def numeral (cs : List Char) : Option (Numeral × List Char) :=
  match cs with
  | '-' :: rest => unsignedNumeral true rest
  | _ => unsignedNumeral false cs

/-- Appends digits to a number as long as it stays a word of 64 bits; gives the digits that are
left over too. -/
def absorb (n : Nat) : List Char → Nat × List Char
  | [] => (n, [])
  | c :: rest =>
    let next := 10 * n + (c.toNat - '0'.toNat)
    if next < UInt64.size then absorb next rest else (n, c :: rest)

namespace Numeral

/-- Whether a numeral has the form of an integer. -/
def isWhole (x : Numeral) : Bool := x.fraction.isEmpty && x.exponent.isNone

/-- The numeral as a binary64 number, if it is not too large. -/
def real? (x : Numeral) : Option Real64 :=
  let (n, left) := absorb 0 x.whole
  let (n, unread) := absorb n x.fraction
  let places : Int := (x.fraction.length : Int) - unread.length
  Real64.ofScaled x.negative n (left.length - places + x.exponent.getD 0)

/-- The value of a numeral: a word stays an integer. Minus zero is no word. -/
def value? (x : Numeral) : Option Json :=
  let n := digitsValue x.whole
  if x.isWhole ∧ !x.negative ∧ n < UInt64.size then some (.int n)
  else if x.isWhole ∧ x.negative ∧ n ≠ 0 ∧ Int64.minValue.toInt ≤ -(n : Int) then
    some (.int (-(n : Int)))
  else x.real?.map .real

end Numeral

end RitualLedger.Json
