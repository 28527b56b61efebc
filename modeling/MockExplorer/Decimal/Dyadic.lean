/-!
# Doubles as exact fractions

A finite double is an integer mantissa times a power of two. Everything that prints a double starts from
that fraction and uses exact natural-number arithmetic.
-/

namespace MockExplorer

/-- A finite double: sign, mantissa, power of two, and whether its mantissa is the least one of its
power, so that its lower neighbour is only half as far away as its upper one. -/
structure Dyadic where
  negative : Bool
  mantissa : Nat
  exponent : Int
  narrowBelow : Bool
deriving DecidableEq, Repr, Inhabited

namespace Dyadic

/-- Reads the bits of a double; infinities and what is not a number have no fraction. -/
def ofBits? (bits : UInt64) : Option Dyadic :=
  let negative : Bool := bits >>> 63 = 1
  let power : Nat := (bits >>> 52 &&& 0x7FF).toNat
  let fraction : Nat := (bits &&& 0xFFFFFFFFFFFFF).toNat
  if power = 2047 then none
  else if power = 0 then some ⟨negative, fraction, -1074, false⟩
  else some ⟨negative, 0x10000000000000 + fraction, (power : Int) - 1075, fraction = 0 && 1 < power⟩

/-- Numerator and denominator of `n * base ^ power`. -/
def scaled (n base : Nat) (power : Int) : Nat × Nat :=
  if 0 ≤ power then (n * Nat.pow base power.toNat, 1) else (n, Nat.pow base (-power).toNat)

/-- Numerator and denominator of the absolute value. -/
def magnitude (d : Dyadic) : Nat × Nat := scaled d.mantissa 2 d.exponent

end Dyadic

end MockExplorer
