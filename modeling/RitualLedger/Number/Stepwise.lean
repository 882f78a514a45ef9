import RitualLedger.Number.Real64

/-!
# Decimals read step by step

`Real64.ofDecimal` gives the number nearest to a decimal. The two readings here are made of machine
steps instead, each of which rounds, so they may end one place beside the nearest number:

* `Real64.ofScaled` reads the numbers of a document: the digits are rounded to a number, which is
  then multiplied or divided by a power of ten;
* `Real64.widened` is how a query sees a number of a stored document: its shortest digits are
  multiplied by powers of ten in numbers with mantissas of 64 bits, and the last product is rounded.

Both are right whenever every step is exact.
-/

namespace RitualLedger

namespace Real64

/-! ## One step of 53 bits -/

/-- The product of two numbers, with the sign of the first. -/
def times (x y : Real64) : Option Real64 :=
  let (a, b) := x.fraction
  let (c, d) := y.fraction
  ofFraction x.negative (a * c) (b * d)

/-- The quotient of two numbers, with the sign of the first. -/
def dividedBy (x y : Real64) : Option Real64 :=
  let (a, b) := x.fraction
  let (c, d) := y.fraction
  ofFraction x.negative (a * d) (b * c)

/-- The greatest power of ten that is a finite number. -/
def maxPower : Nat := 308

/-- A number divided some times by the greatest power of ten; zero stays as it is. -/
def shrinkFully : Nat → Real64 → Option Real64
  | 0, x => some x
  | times + 1, x =>
    if x.mantissa = 0 then some x
    else do shrinkFully times (← x.dividedBy (← ofDecimal false 1 maxPower))

/-- A number divided by a power of ten, in as few steps as there can be. -/
def shrink (x : Real64) (power : Nat) : Option Real64 := do
  let full := (power - 1) / maxPower
  (← x.shrinkFully full).dividedBy (← ofDecimal false 1 (power - full * maxPower))

/-- A number multiplied by a power of ten; none if the power or the product is too large. -/
def grow (x : Real64) (power : Nat) : Option Real64 :=
  if power ≤ maxPower then do x.times (← ofDecimal false 1 power)
  else if x.mantissa = 0 then some x
  else none

/-- Reads `± digits · 10 ^ power`: the digits are rounded first, and then their product. -/
def ofScaled (negative : Bool) (digits : Nat) (power : Int) : Option Real64 := do
  let x ← ofFraction negative digits 1
  if 0 ≤ power then x.grow power.toNat else x.shrink (-power).toNat

end Real64

/-! ## Many steps of 64 bits -/

/-- A positive number with a mantissa of 64 bits, `mantissa · 2 ^ exponent`. -/
structure WideReal where
  mantissa : Nat
  exponent : Int
deriving DecidableEq, Repr

namespace WideReal

/-- The number nearest to a positive fraction, a half going to the even mantissa. -/
def ofFraction (num den : Nat) : WideReal :=
  let e := Real64.exponentFor 64 num den
  let (p, q) := Real64.scaled 1 e
  let m := Real64.roundDiv (num * q) (den * p)
  if m = 1 <<< 64 then ⟨1 <<< 63, e + 1⟩ else ⟨m, e⟩

/-- The value as a fraction. -/
def fraction (x : WideReal) : Nat × Nat := Real64.scaled x.mantissa x.exponent

/-- The product of two numbers. -/
def times (x y : WideReal) : WideReal :=
  let (a, b) := x.fraction
  let (c, d) := y.fraction
  ofFraction (a * c) (b * d)

/-- A number multiplied several times by a factor. -/
def timesRepeatedly (factor : WideReal) : Nat → WideReal → WideReal
  | 0, x => x
  | n + 1, x => timesRepeatedly factor n (x.times factor)

/-- A number multiplied by a power of ten, or divided by it: by steps of a hundred places, then of
ten, then of one. -/
def scale (x : WideReal) (power : Int) : WideReal :=
  let factor (places : Nat) : WideReal :=
    if 0 ≤ power then ofFraction (Nat.pow 10 places) 1 else ofFraction 1 (Nat.pow 10 places)
  let n := power.natAbs
  let x := timesRepeatedly (factor 100) (n / 100) x
  let x := timesRepeatedly (factor 10) (n % 100 / 10) x
  timesRepeatedly (factor 1) (n % 10) x

end WideReal

namespace Real64

/-- Moves a power of ten into the digits while they stay below a word of 64 bits. -/
def fillDigits (digits : Nat) : Nat → Nat × Nat
  | 0 => (digits, 0)
  | power + 1 =>
    if digits < UInt64.size / 10 then fillDigits (digits * 10) power else (digits, power + 1)

/-- The number as its shortest digits are read with mantissas of 64 bits. -/
def widened (x : Real64) : Real64 :=
  let (digits, power) := x.shortest
  let (digits, power) : Nat × Int :=
    if 0 ≤ power then
      let (digits, power) := fillDigits digits power.toNat
      (digits, power)
    else (digits, power)
  if digits = 0 then x
  else
    let (num, den) := ((WideReal.ofFraction digits 1).scale power).fraction
    (ofFraction x.negative num den).getD x

end Real64

end RitualLedger
