/-
  Binary64 magnitudes — a decimal fraction read as the NEAREST float.

  1. **Data** — a non-negative float is named by its bit pattern `b` without the sign bit, a number
     below `infinityBits`; the pattern of infinity follows the largest finite one.  All of them
     are multiples of one unit, the TICK `2⁻¹⁰⁷⁴`, so a float is a number of ticks and the whole
     theory is arithmetic in `Nat`.  Patterns are in the order of their ticks.

  2. **Specification** — of the two patterns around a fraction `p / q` the nearer one, of two
     equally near ones the even one.  The pattern of infinity takes part as if it were the number
     `2¹⁰²⁴`, so overflow is the SAME rule and no case of its own.

  3. **Program** — `nearest p q` divides once for the pattern below the fraction and compares the
     rest with half the gap above it.

  Core only.
-/
import Verdict.Decimal.Digits

namespace Verdict.Decimal

/-- The binary exponent of a tick, negated: a tick is `2⁻¹⁰⁷⁴`, the smallest positive float. -/
def tickExponent : Nat := 1074

/-- How many bits of a pattern hold the fraction. -/
def fractionBits : Nat := 52

/-- The pattern of infinity; the patterns below it are the finite magnitudes. -/
def infinityBits : Nat := 2047 * 2 ^ fractionBits

/-- The binade of a pattern: neighbours in it are `2 ^ binade b` ticks apart. -/
def binade (b : Nat) : Nat := b / 2 ^ fractionBits - 1

/-- The ticks of a pattern. -/
def ticks (b : Nat) : Nat :=
  (b - binade b * 2 ^ fractionBits) * 2 ^ binade b

/-- The pattern nearest to `p / q`; of two equally near ones the even one. -/
def nearest (p q : Nat) : Nat :=
  let scaled := p * 2 ^ tickExponent
  let k := (scaled / q).log2 - fractionBits
  let m := scaled / q / 2 ^ k
  let below := k * 2 ^ fractionBits + m
  let pattern :=
    match compare (2 * (scaled - m * 2 ^ k * q)) (2 ^ k * q) with
    | .lt => below
    | .eq => below + below % 2
    | .gt => below + 1
  min pattern infinityBits

/-! ## Floats and patterns -/

/-- The float with the given sign and pattern. -/
def toFloat (negative : Bool) (b : Nat) : Float :=
  Float.ofBits (UInt64.ofNat (if negative then b + 2 ^ (63 : Nat) else b))

/-- The pattern of a float without its sign; above `infinityBits` the float is not a number. -/
def magnitude (x : Float) : Nat := x.toBits.toNat % 2 ^ (63 : Nat)

/-- Is the sign bit of a float set?  It is on `-0.0`. -/
def isNegative (x : Float) : Bool := 2 ^ (63 : Nat) ≤ x.toBits.toNat

/-- Is the float a number, and not an infinite one? -/
def isFinite (x : Float) : Bool := magnitude x < infinityBits

/-- The float nearest to `p / q`, with a sign. -/
def ofFraction (negative : Bool) (p q : Nat) : Float :=
  toFloat negative (nearest p q)

/-- The float that an integer widens to: the nearest one. -/
def ofInt (n : Int) : Float :=
  ofFraction (n < 0) n.natAbs 1

/-- The float nearest to the decimal `whole.fraction`; either row may be empty. -/
def ofDigits (negative : Bool) (whole fraction : List Char) : Float :=
  ofFraction negative (digitsValue (whole ++ fraction)) (10 ^ fraction.length)

end Verdict.Decimal
