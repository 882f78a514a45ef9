/-!
# Binary64 numbers, exactly

A finite binary64 number is a sign, a natural mantissa and a power of two, so it is a fraction and
everything about it is exact arithmetic on naturals:

* `ofFraction` rounds a fraction to the nearest number, a half going to the even mantissa;
* `sameAsInt` and `sameAs` compare by value;
* `shortest` finds the fewest decimal digits that round back to the number. Its rule: of the
  decimal grids with 1, 2, … 17 digits, take the first that has a point among the reals that round
  to the number, and of two such points the nearer one.

Every number that `ofFraction` builds is in lowest form: the mantissa has 53 bits, or the exponent
is the least one. So two of them have one value exactly when they are equal, zeros apart.
-/

namespace RitualLedger

/-- A finite binary64 number, `± mantissa · 2 ^ exponent`. -/
structure Real64 where
  negative : Bool
  mantissa : Nat
  exponent : Int
deriving DecidableEq, Repr

namespace Real64

/-- The least exponent, that of the subnormal numbers. -/
def minExponent : Int := -1074

/-- The greatest exponent of a finite number. -/
def maxExponent : Int := 971

/-- `n · 2 ^ e` as a fraction. -/
def scaled (n : Nat) (e : Int) : Nat × Nat :=
  if 0 ≤ e then (n <<< e.toNat, 1) else (n, 1 <<< (-e).toNat)

/-- The quotient rounded to a natural number, a half going to the even neighbour. -/
def roundDiv (num den : Nat) : Nat :=
  let q := num / den
  let r := num % den
  if den < 2 * r ∨ (2 * r = den ∧ q % 2 = 1) then q + 1 else q

/-- The exponent at which a positive fraction has a mantissa of some number of bits. -/
def exponentFor (bits : Nat) (num den : Nat) : Int :=
  let k : Int := (Nat.log2 num : Int) - (Nat.log2 den : Int)
  let (p, q) := scaled 1 k
  let top := if num * q < den * p then k - 1 else k
  top - bits + 1

/-- The exponent at which a positive fraction has a mantissa of 53 bits, but never less than the
least one. -/
def exponentOf (num den : Nat) : Int := max minExponent (exponentFor 53 num den)

/-- The number nearest to a fraction; none when it is too large for a finite number. -/
def ofFraction (negative : Bool) (num den : Nat) : Option Real64 :=
  if num = 0 then some ⟨negative, 0, minExponent⟩
  else
    let e := exponentOf num den
    let (p, q) := scaled 1 e
    let m := roundDiv (num * q) (den * p)
    let (m, e) := if m = 1 <<< 53 then (1 <<< 52, e + 1) else (m, e)
    if maxExponent < e then none else some ⟨negative, m, e⟩

/-- The number nearest to an integer. -/
def ofInt (n : Int) : Option Real64 := ofFraction (n < 0) n.natAbs 1

/-- The number nearest to `± digits · 10 ^ power`. Powers beyond any number's reach are cut, which
changes no result. -/
def ofDecimal (negative : Bool) (digits : Nat) (power : Int) : Option Real64 :=
  if digits = 0 then ofFraction negative 0 1
  else if 400 < power then none
  else if power < -400 - (Nat.log2 digits : Int) then ofFraction negative 0 1
  else if 0 ≤ power then ofFraction negative (digits * Nat.pow 10 power.toNat) 1
  else ofFraction negative digits (Nat.pow 10 (-power).toNat)

/-- The absolute value as a fraction. -/
def fraction (x : Real64) : Nat × Nat := scaled x.mantissa x.exponent

/-- Equality by value; the two zeros are equal. -/
def sameAs (x y : Real64) : Bool :=
  (x.mantissa == y.mantissa && x.exponent == y.exponent && x.negative == y.negative) ||
    (x.mantissa == 0 && y.mantissa == 0)

/-- Whether the number is the given integer. -/
def sameAsInt (x : Real64) (n : Int) : Bool :=
  let (p, q) := x.fraction
  p == n.natAbs * q && (p == 0 || x.negative == decide (n < 0))

/-! ## Shortest decimal form -/

/-- The reals that round to the number, as two bounds over one denominator: its value, half a step
below it and half a step above it. The step below a power of two is half as long. -/
def neighbourhood (x : Real64) : Nat × Nat × Nat × Nat :=
  let (v, den) := scaled (4 * x.mantissa) (x.exponent - 2)
  let (step, _) := scaled 1 (x.exponent - 2)
  let below := if x.mantissa = 1 <<< 52 ∧ minExponent < x.exponent then step else 2 * step
  (v, v - below, v + 2 * step, den)

/-- A point of the grid of `10 ^ power` that rounds to the number, the nearer one if there are two:
its count of grid steps. -/
def gridPoint? (x : Real64) (power : Int) : Option Nat :=
  let (v, low, high, den) := x.neighbourhood
  let (up, down) :=
    if 0 ≤ power then (Nat.pow 10 power.toNat, 1) else (1, Nat.pow 10 (-power).toNat)
  let unit := den * up
  let inside (n : Nat) : Bool :=
    if x.mantissa % 2 = 0 then low * down ≤ n * unit && n * unit ≤ high * down
    else low * down < n * unit && n * unit < high * down
  let n := v * down / unit
  let r := v * down % unit
  match inside n, inside (n + 1) with
  | true, true => some (if unit < 2 * r ∨ (2 * r = unit ∧ n % 2 = 1) then n + 1 else n)
  | true, false => some n
  | false, true => some (n + 1)
  | false, false => none

/-- The decimal exponent of the leading digit, searched from an estimate. -/
def leadingPower (x : Real64) : Int :=
  let (num, den) := x.fraction
  let estimate : Int := ((Nat.log2 num : Int) - (Nat.log2 den : Int)) * 30103 / 100000
  let reaches (p : Int) : Bool :=
    if 0 ≤ p then den * Nat.pow 10 p.toNat ≤ num else den ≤ num * Nat.pow 10 (-p).toNat
  if reaches (estimate + 1) then estimate + 1
  else if reaches estimate then estimate
  else estimate - 1

/-- Tries the grids with `count`, `count + 1`, … digits. -/
def shortestFrom (x : Real64) (leading : Int) : Nat → Nat → Nat × Int
  | 0, _ => (0, 0)
  | tries + 1, count =>
    let power := leading - (count : Int) + 1
    match x.gridPoint? power with
    | some n => (n, power)
    | none => shortestFrom x leading tries (count + 1)

/-- Moves the zeros at the end of the digits into the power. -/
def dropZeros : Nat → Nat → Int → Nat × Int
  | 0, digits, power => (digits, power)
  | fuel + 1, digits, power =>
    if digits % 10 = 0 ∧ digits ≠ 0 then dropZeros fuel (digits / 10) (power + 1)
    else (digits, power)

/-- The fewest digits that round back to the number, with the power of ten of the last one. -/
def shortest (x : Real64) : Nat × Int :=
  if x.mantissa = 0 then (0, 0)
  else
    let (digits, power) := x.shortestFrom x.leadingPower 17 1
    dropZeros 20 digits power

/-- The text of a number in a document: positional while the decimal point stands among 16 digits
or at most five places before them, with a signed exponent otherwise, and always with a digit on
either side of a point. -/
def text (x : Real64) : String :=
  let sign := if x.negative then "-" else ""
  let (digits, power) := x.shortest
  let ds := Nat.toDigits 10 digits
  let point : Int := ds.length + power
  let body :=
    if digits = 0 then "0.0"
    else if 0 ≤ power ∧ point ≤ 16 then
      String.ofList (ds ++ List.replicate power.toNat '0') ++ ".0"
    else if 0 < point ∧ point ≤ 16 then
      String.ofList (ds.take point.toNat) ++ "." ++ String.ofList (ds.drop point.toNat)
    else if -5 < point ∧ point ≤ 0 then
      "0." ++ String.ofList (List.replicate (-point).toNat '0' ++ ds)
    else
      let mark := (if 0 < point then "e+" else "e") ++ toString (point - 1)
      match ds with
      | [d] => String.ofList [d] ++ mark
      | d :: rest => String.ofList [d] ++ "." ++ String.ofList rest ++ mark
      | [] => mark
  sign ++ body

end Real64

end RitualLedger
