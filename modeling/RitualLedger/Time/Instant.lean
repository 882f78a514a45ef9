import RitualLedger.Text.Blank
import RitualLedger.Text.Decimal
import RitualLedger.Time.Calendar

/-!
# Instants and their text

An instant is a count of seconds from the start of 1970 in UTC and a count of nanoseconds. A leap
second is the second before it with a count of nanoseconds of a second or more.

Instants are written in the form of RFC 3339, always in UTC with a `Z`, with as few of 0, 3, 6 or 9
digits of fraction as hold the value; a year outside 0 to 9999 gets a sign. The reader takes that
form in any zone, and is lenient: a blank may stand for the `T`, numbers need not be padded, blanks
may stand before them, further digits of a fraction are dropped, and a zone may lack its colon.
-/

namespace RitualLedger

/-- A point in time. -/
structure Instant where
  /-- Seconds since the start of 1970 in UTC. -/
  seconds : Int
  /-- Nanoseconds on top; from one second up they mean the leap second that follows. -/
  nanos : Nat
deriving DecidableEq, Repr

namespace Instant

/-- The number of seconds of a day. -/
def secondsPerDay : Int := 86400

/-- The number of nanoseconds of a second. -/
def nanosPerSecond : Nat := 1000000000

/-- Earlier comes first; within a second the nanoseconds decide. -/
def before (a b : Instant) : Bool :=
  decide (a.seconds < b.seconds) || (a.seconds == b.seconds && decide (a.nanos < b.nanos))

/-- The first instant that a date can name. -/
def earliest : Instant := ⟨(Date.mk (-262143) 1 1).dayNumber * secondsPerDay, 0⟩

/-- The last instant that a date can name. -/
def latest : Instant :=
  ⟨(Date.mk 262142 12 31).dayNumber * secondsPerDay + 86399, nanosPerSecond - 1⟩

/-- The instant some nanoseconds later, or earlier for a negative count, if a date can name it. -/
def plus? (t : Instant) (nanos : Int) : Option Instant :=
  let total := t.seconds * nanosPerSecond + t.nanos + nanos
  let moved : Instant := ⟨total / nanosPerSecond, (total % nanosPerSecond).toNat⟩
  if moved.before earliest || latest.before moved then none else some moved

/-! ## Writing -/

/-- A year: four digits, with a sign when it has more digits or is negative. -/
def yearText (year : Int) : String :=
  if 0 ≤ year ∧ year ≤ 9999 then Text.padded 4 year.toNat
  else (if year < 0 then "-" else "+") ++ Text.padded 4 year.natAbs

/-- The fraction of a second. -/
def fractionText (nanos : Nat) : String :=
  if nanos = 0 then ""
  else if nanos % 1000000 = 0 then "." ++ Text.padded 3 (nanos / 1000000)
  else if nanos % 1000 = 0 then "." ++ Text.padded 6 (nanos / 1000)
  else "." ++ Text.padded 9 nanos

/-- The text of an instant. -/
def text (t : Instant) : String :=
  let date := Date.ofDayNumber (t.seconds / secondsPerDay)
  let second := (t.seconds % secondsPerDay).toNat
  let leap := decide (nanosPerSecond ≤ t.nanos)
  let two := Text.padded 2
  yearText date.year ++ "-" ++ two date.month ++ "-" ++ two date.day ++ "T"
    ++ two (second / 3600) ++ ":" ++ two (second / 60 % 60) ++ ":"
    ++ two (second % 60 + if leap then 1 else 0)
    ++ fractionText (if leap then t.nanos - nanosPerSecond else t.nanos) ++ "Z"

/-! ## Reading -/

/-- Reads at most `width` digits, at least one; gives their value and the rest. -/
def number (width : Nat) (cs : List Char) : Option (Nat × List Char) :=
  let digits := (cs.take width).takeWhile Char.isDigit
  if digits.isEmpty then none
  else some (Nat.ofDigitChars 10 digits 0, cs.drop digits.length)

/-- Reads all digits in front, at least one. -/
def longNumber (cs : List Char) : Option (Nat × List Char) := number cs.length cs

/-- Reads a number between two bounds after optional blanks. -/
def field (least most : Nat) (cs : List Char) : Option (Nat × List Char) := do
  let (n, rest) ← number 2 (Text.trimStart cs)
  if least ≤ n ∧ n ≤ most then some (n, rest) else none

/-- Reads a separator after optional blanks. -/
def separator (c : Char) (cs : List Char) : Option (List Char) :=
  match Text.trimStart cs with
  | d :: rest => if d = c then some rest else none
  | [] => none

/-- Reads a year: up to four digits, or any number of them after a sign. -/
def year (cs : List Char) : Option (Int × List Char) :=
  match Text.trimStart cs with
  | '-' :: rest => (longNumber rest).map fun (n, rest) => (-(n : Int), rest)
  | '+' :: rest => (longNumber rest).map fun (n, rest) => ((n : Int), rest)
  | cs => (number 4 cs).map fun (n, rest) => ((n : Int), rest)

/-- Reads a fraction of a second, if there is one, as nanoseconds. -/
def fraction (cs : List Char) : Option (Nat × List Char) :=
  match cs with
  | '.' :: rest => do
    let (n, after) ← number 9 rest
    let used := rest.length - after.length
    some (n * Nat.pow 10 (9 - used), after.dropWhile Char.isDigit)
  | _ => some (0, cs)

/-- Reads two digits. -/
def twoDigits : List Char → Option (Nat × List Char)
  | a :: b :: rest =>
    if a.isDigit ∧ b.isDigit then some (Nat.ofDigitChars 10 [a, b] 0, rest) else none
  | _ => none

/-- Reads a zone as the seconds by which its clocks are ahead of UTC. -/
def zone (cs : List Char) : Option (Int × List Char) :=
  let offset (sign : Int) (cs : List Char) : Option (Int × List Char) := do
    let (hours, rest) ← twoDigits cs
    let rest := rest.dropWhile fun c => c = ':' || Text.isBlankChar c
    let (minutes, rest) ← twoDigits rest
    if hours < 24 ∧ minutes < 60 then some (sign * (hours * 3600 + minutes * 60), rest) else none
  match cs with
  | u :: t :: c :: rest =>
    if u.toUpper = 'U' ∧ t.toUpper = 'T' ∧ c.toUpper = 'C' then some (0, rest)
    else match u with
      | 'Z' | 'z' => some (0, t :: c :: rest)
      | '+' => offset 1 (t :: c :: rest)
      | '-' | '−' => offset (-1) (t :: c :: rest)
      | _ => none
  | 'Z' :: rest | 'z' :: rest => some (0, rest)
  | _ => none

/-- Reads a date. -/
def date (cs : List Char) : Option (Date × List Char) := do
  let (y, rest) ← year cs
  let rest ← separator '-' rest
  let (m, rest) ← field 1 12 rest
  let rest ← separator '-' rest
  let (d, rest) ← field 1 31 rest
  let date : Date := ⟨y, m, d⟩
  if date.isValid ∧ -262143 ≤ y ∧ y ≤ 262142 then some (date, rest) else none

/-- Reads a time of day: its seconds and nanoseconds. -/
def timeOfDay (cs : List Char) : Option ((Nat × Nat) × List Char) := do
  let (h, rest) ← field 0 23 cs
  let rest ← separator ':' rest
  let (m, rest) ← field 0 59 rest
  let rest ← separator ':' rest
  let (s, rest) ← field 0 60 rest
  let (nanos, rest) ← fraction rest
  if s = 60 then some ((h * 3600 + m * 60 + 59, nanosPerSecond + nanos), rest)
  else some ((h * 3600 + m * 60 + s, nanos), rest)

/-- Reads an instant. -/
def read? (s : String) : Option Instant := do
  let (date, rest) ← date s.toList
  match rest with
  | c :: rest =>
    if c = 'T' ∨ c = 't' ∨ c = ' ' then
      let ((second, nanos), rest) ← timeOfDay rest
      let (ahead, rest) ← zone (Text.trimStart rest)
      if Text.trimStart rest = [] then
        let t : Instant := ⟨date.dayNumber * secondsPerDay + second - ahead, nanos⟩
        if t.before earliest || latest.seconds < t.seconds then none else some t
      else none
    else none
  | [] => none

end Instant

end RitualLedger
