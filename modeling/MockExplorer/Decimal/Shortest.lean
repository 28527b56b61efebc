import MockExplorer.Decimal.Dyadic

/-!
# Shortest decimals

The shortest decimal of a double is the one with the fewest digits among those that read back as the
same double, and of these the nearest; a tie goes to the even one.
-/

namespace MockExplorer

/-- The decimal `coefficient * 10 ^ exponent`. -/
structure Decimal where
  coefficient : Nat
  exponent : Int
deriving DecidableEq, Repr, Inhabited

namespace Decimal

/-- Whether `a / b ≤ c / d`. -/
def ratioLe (a b : Nat × Nat) : Bool := a.1 * b.2 ≤ b.1 * a.2

/-- The least `j ≤ fuel` from `j` on with `1 ≤ r * 10 ^ j`. -/
def leastShift (r : Nat × Nat) : (fuel : Nat) → Nat → Nat
  | 0, j => j
  | fuel + 1, j => if r.2 ≤ r.1 * Nat.pow 10 j then j else leastShift r fuel (j + 1)

/-- The power of ten of the leading digit of a positive fraction. -/
def leadingPower (r : Nat × Nat) : Int :=
  if r.2 ≤ r.1 then ((Nat.toDigits 10 (r.1 / r.2)).length : Int) - 1
  else - (leastShift r 400 1 : Int)

/-- The decimals that read back as a double: between two bounds, which count themselves if the mantissa
is even. -/
structure Interval where
  low : Nat × Nat
  high : Nat × Nat
  closed : Bool

/-- The interval of a double, bounded half-way to its neighbours. -/
def Interval.ofDyadic (d : Dyadic) : Interval :=
  let point (n : Nat) := Dyadic.scaled n 2 (d.exponent - 2)
  { low := point (4 * d.mantissa - if d.narrowBelow then 1 else 2)
    high := point (4 * d.mantissa + 2)
    closed := d.mantissa % 2 = 0 }

def Interval.contains (i : Interval) (r : Nat × Nat) : Bool :=
  if i.closed then ratioLe i.low r && ratioLe r i.high
  else !ratioLe r i.low && !ratioLe i.high r

/-- How far `coefficient * 10 ^ exponent` is from `r`, in units that are the same for both neighbours on
one grid. -/
def distance (r : Nat × Nat) (c : Nat) (exponent : Int) : Nat :=
  let s := Dyadic.scaled c 10 exponent
  (s.1 * r.2 - r.1 * s.2) + (r.1 * s.2 - s.1 * r.2)

/-- The nearer of the value's two neighbours on the grid of `10 ^ exponent` that lie in the interval; of
two that are equally near, the even one. -/
def onGrid? (r : Nat × Nat) (i : Interval) (exponent : Int) : Option Decimal :=
  let unit := Dyadic.scaled 1 10 exponent
  let below := r.1 * unit.2 / (r.2 * unit.1)
  let above := below + 1
  match i.contains (Dyadic.scaled below 10 exponent), i.contains (Dyadic.scaled above 10 exponent) with
  | true, true =>
    let up := distance r above exponent
    let down := distance r below exponent
    if up < down || (up = down && below % 2 = 1) then some ⟨above, exponent⟩ else some ⟨below, exponent⟩
  | true, false => some ⟨below, exponent⟩
  | false, true => some ⟨above, exponent⟩
  | false, false => none

/-- Moves trailing zeros of the coefficient into the exponent. -/
def trim : (fuel : Nat) → Decimal → Decimal
  | 0, d => d
  | fuel + 1, d =>
    if d.coefficient ≠ 0 ∧ d.coefficient % 10 = 0 then trim fuel ⟨d.coefficient / 10, d.exponent + 1⟩
    else d

/-- The shortest decimal of the absolute value of a double. Seventeen digits are always enough. -/
def shortest (d : Dyadic) : Decimal :=
  if d.mantissa = 0 then ⟨0, 0⟩
  else
    let r := d.magnitude
    let i := Interval.ofDyadic d
    let k := leadingPower r
    let found := (List.range 17).findSome? fun (n : Nat) => onGrid? r i (k - (n : Int))
    trim 20 (found.getD ⟨d.mantissa, 0⟩)

/-! ## Text -/

/-- When a decimal is written with an exponent, and with which sign. -/
structure Layout where
  /-- The least power of ten of a leading digit that is written positionally. -/
  leastPower : Int
  /-- The greatest one. -/
  greatestPower : Int

/-- Numbers in reports are positional from `1e-5` up to below `1e16`. -/
def Layout.report : Layout := ⟨-5, 15⟩

def zeros (n : Nat) : List Char := List.replicate n '0'

/-- The digits of a decimal with a point or an exponent. Positional text always has a fraction. -/
def text (l : Layout) (d : Decimal) : String :=
  let digits := Nat.toDigits 10 d.coefficient
  let power : Int := d.exponent + digits.length - 1
  if d.coefficient = 0 then "0.0"
  else if power < l.leastPower ∨ l.greatestPower < power then
    let fraction := match digits.drop 1 with
      | [] => []
      | rest => '.' :: rest
    let sign := if power < 0 then '-' else '+'
    String.ofList (digits.take 1 ++ fraction ++ ['e', sign] ++ Nat.toDigits 10 power.natAbs)
  else if power < 0 then
    String.ofList (['0', '.'] ++ zeros (power.natAbs - 1) ++ digits)
  else if 0 ≤ d.exponent then
    String.ofList (digits ++ zeros d.exponent.toNat ++ ['.', '0'])
  else
    let whole := power.toNat + 1
    String.ofList (digits.take whole ++ ['.'] ++ digits.drop whole)

/-- The shortest text of a double; infinities and what is not a number have none. -/
def floatText? (x : Float) : Option String :=
  (Dyadic.ofBits? x.toBits).map fun d =>
    (if d.negative then "-" else "") ++ text .report (shortest d)

/-! ## Fixed places -/

/-- The quotient rounded to the nearest integer, a half to the even one. -/
def roundDiv (num den : Nat) : Nat :=
  let q := num / den
  let r := num % den
  if 2 * r < den then q
  else if den < 2 * r then q + 1
  else q + q % 2

/-- A double with one place after the point. -/
def onePlace (x : Float) : String :=
  match Dyadic.ofBits? x.toBits with
  | none => if x.isNaN then "NaN" else if x < 0 then "-inf" else "inf"
  | some d =>
    let (num, den) := d.magnitude
    let tenths := roundDiv (num * 10) den
    (if d.negative then "-" else "") ++ toString (tenths / 10) ++ "." ++ toString (tenths % 10)

end Decimal

end MockExplorer
