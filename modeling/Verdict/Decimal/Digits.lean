/-
  Decimal digits — the number that a row of digit characters denotes, and the row of a number.

  1. **Specification** — `Nat.ofDigitChars 10 ds 0`: multiply by ten and add, digit by digit.

  2. **Program** — `digitsValue ds` splits a long row in halves and joins the two values with one
     power of ten, so that a row of a million digits costs a few large multiplications instead of
     a million.  `digitsValue_eq`: the two agree on EVERY row of characters.

  Core only.
-/

namespace Verdict.Decimal

/-- Powers are the core library's in this namespace, whatever else is imported. -/
scoped instance (priority := high) corePow : Pow Nat Nat := instPowNat

/-- Is `c` one of the ten ASCII digits? -/
def isDigit (c : Char) : Bool := '0' ≤ c && c ≤ '9'

/-- The digits of a natural number. -/
def natural (n : Nat) : List Char := Nat.toDigits 10 n

/-- The digits of an integer, after a minus sign if it is negative. -/
def integer (n : Int) : List Char :=
  if n < 0 then '-' :: natural n.natAbs else natural n.natAbs

/-- The value of a row of digits, split in halves `depth` times before it is read digit by digit. -/
def halvedValue : Nat → List Char → Nat
  | 0, ds => Nat.ofDigitChars 10 ds 0
  | depth + 1, ds =>
      let cut := ds.length / 2
      let low := ds.drop cut
      halvedValue depth (ds.take cut) * 10 ^ low.length + halvedValue depth low

/-- The value of a row of digits. -/
def digitsValue (ds : List Char) : Nat :=
  halvedValue ((ds.length / 256).log2) ds

/-- The value of two rows written one after the other. -/
theorem ofDigitChars_append_eq (hi lo : List Char) :
    Nat.ofDigitChars 10 (hi ++ lo) 0
      = Nat.ofDigitChars 10 hi 0 * 10 ^ lo.length + Nat.ofDigitChars 10 lo 0 := by
  rw [Nat.ofDigitChars_append, Nat.ofDigitChars_eq_ofDigitChars_zero, Nat.mul_comm]

theorem halvedValue_eq (depth : Nat) (ds : List Char) :
    halvedValue depth ds = Nat.ofDigitChars 10 ds 0 := by
  induction depth generalizing ds with
  | zero => rfl
  | succ depth ih =>
      simp only [halvedValue, ih]
      rw [← ofDigitChars_append_eq, List.take_append_drop]

/-- Splitting changes the work, not the value. -/
theorem digitsValue_eq (ds : List Char) : digitsValue ds = Nat.ofDigitChars 10 ds 0 :=
  halvedValue_eq _ ds

end Verdict.Decimal
