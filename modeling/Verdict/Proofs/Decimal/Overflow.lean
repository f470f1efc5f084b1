/-
  Overflow — where the finite floats end.

  1. **Bound** — `overflow` lies in the middle between the largest finite float and `2¹⁰²⁴`.  A
     fraction is nearest to a finite pattern exactly below it (`nearest_lt_infinityBits_iff`): in
     the highest binade the step below infinity is the only one that can be rounded up to it, and
     that happens from the middle of the step on.

  2. **Decimals** — the float of a decimal is a number, and it is finite exactly if the decimal is
     below the bound (`isFinite_ofDigits_iff`).
-/
import Verdict.Proofs.Decimal.Order

namespace Verdict.Decimal

/-- The first number that is nearer to infinity than to the largest finite float. -/
def overflow : Nat := (2 ^ (54 : Nat) - 1) * 2 ^ (970 : Nat)

/-- The binade of the largest finite floats. -/
def lastBinade : Nat := 2045

/-- How many steps into its binade the largest finite float is. -/
def lastStep : Nat := 2 ^ (53 : Nat) - 1

theorem nearest_overflow : nearest overflow 1 = infinityBits := by
  decide +kernel

/-- Twice the bound, in ticks: one half step above the last step of the highest binade. -/
theorem two_mul_overflow :
    2 * (overflow * 2 ^ tickExponent) = (2 * lastStep + 1) * 2 ^ lastBinade := by
  decide +kernel

/-- Below the bound the highest binade is the last one: the number of ticks has no more digits. -/
theorem binadeOf_le_of_lt_overflow {x : Nat} (h : x < overflow * 2 ^ tickExponent) :
    binadeOf x ≤ lastBinade := by
  have hlog : x.log2 < 2098 := by
    by_cases hx : x = 0
    · subst hx
      decide
    · rw [Nat.log2_lt hx]
      exact Nat.lt_trans h (by decide +kernel)
  unfold binadeOf fractionBits lastBinade
  omega

/-- Above the last finite pattern less than half a step is left of a fraction below the bound.  Both
    are measured in ticks, and twice the bound lies one step above twice the last pattern. -/
theorem two_mul_restOf_lt {p q : Nat} (hq : 0 < q)
    (h : p * 2 ^ tickExponent < overflow * 2 ^ tickExponent * q)
    (hbinade : binadeOf (p * 2 ^ tickExponent / q) = lastBinade)
    (hstep : p * 2 ^ tickExponent / q / 2 ^ binadeOf (p * 2 ^ tickExponent / q)
      = lastStep) :
    2 * restOf p q < 2 ^ binadeOf (p * 2 ^ tickExponent / q) * q := by
  have hgap : 0 < 2 ^ lastBinade * q := Nat.mul_pos (Nat.two_pow_pos _) hq
  have hhalf : 2 * (p * 2 ^ tickExponent)
      < 2 * (lastStep * 2 ^ lastBinade * q) + 2 ^ lastBinade * q := by
    calc 2 * (p * 2 ^ tickExponent)
        < 2 * (overflow * 2 ^ tickExponent * q) := Nat.mul_lt_mul_of_pos_left h (by decide)
      _ = 2 * (overflow * 2 ^ tickExponent) * q := (Nat.mul_assoc _ _ _).symm
      _ = (2 * lastStep + 1) * 2 ^ lastBinade * q := by rw [two_mul_overflow]
      _ = 2 * (lastStep * 2 ^ lastBinade * q) + 2 ^ lastBinade * q := by
          rw [Nat.add_mul, Nat.one_mul, Nat.add_mul, Nat.mul_assoc 2, Nat.mul_assoc 2]
  unfold restOf
  dsimp only
  rw [hstep, hbinade]
  generalize lastStep * 2 ^ lastBinade * q = last at hhalf ⊢
  generalize 2 ^ lastBinade * q = gap at hhalf hgap ⊢
  omega

/-- Below the bound every pattern but the last finite one has a finite one above it, so it may be
    rounded up without harm. -/
theorem patternBelow_succ_lt {x : Nat} (h : x < overflow * 2 ^ tickExponent)
    (hlast : ¬ (binadeOf x = lastBinade ∧ x / 2 ^ binadeOf x = lastStep)) :
    patternBelow x + 1 < infinityBits := by
  have hbinade := binadeOf_le_of_lt_overflow h
  have hwide := (div_binadeOf x).1
  have hbits : infinityBits = 2047 * 2 ^ fractionBits := rfl
  unfold patternBelow
  generalize x / 2 ^ binadeOf x = step at *
  generalize binadeOf x = k at *
  unfold lastBinade lastStep at hlast
  unfold lastBinade at hbinade
  unfold fractionBits at hwide hbits ⊢
  omega

/-- Below the bound a fraction is rounded to a finite float: from the last finite pattern it is not
    rounded up, and from any other it may be. -/
theorem nearest_lt_of_lt_overflow {p q : Nat} (hq : 0 < q) (h : p < overflow * q) :
    nearest p q < infinityBits := by
  have hp : p * 2 ^ tickExponent < overflow * 2 ^ tickExponent * q := by
    rw [Nat.mul_right_comm]
    exact Nat.mul_lt_mul_of_pos_right h (Nat.two_pow_pos _)
  have hx : p * 2 ^ tickExponent / q < overflow * 2 ^ tickExponent :=
    (Nat.div_lt_iff_lt_mul hq).mpr hp
  rw [nearest_eq]
  refine Nat.lt_of_le_of_lt (Nat.min_le_left _ _) ?_
  by_cases hlast : binadeOf (p * 2 ^ tickExponent / q) = lastBinade
      ∧ p * 2 ^ tickExponent / q / 2 ^ binadeOf (p * 2 ^ tickExponent / q) = lastStep
  · -- The last finite pattern is kept, because too little is left for the next one.
    rw [Nat.compare_eq_lt.mpr (two_mul_restOf_lt hq hp hlast.1 hlast.2)]
    show patternBelow _ < _
    unfold patternBelow
    rw [hlast.2, hlast.1]
    decide
  · exact Nat.lt_of_le_of_lt (roundedFrom_le _ _) (patternBelow_succ_lt hx hlast)

/-- **The end of the finite floats.**  A fraction is nearest to a finite float exactly if it is
    below the bound.  The bound itself is rounded to infinity, and rounding is monotone. -/
theorem nearest_lt_infinityBits_iff {p q : Nat} (hq : 0 < q) :
    nearest p q < infinityBits ↔ p < overflow * q := by
  refine ⟨fun h => Nat.lt_of_not_le fun hle => ?_, nearest_lt_of_lt_overflow hq⟩
  have hmono := nearest_mono q hle
  have hscaled := nearest_scaled hq overflow 1
  rw [Nat.one_mul, nearest_overflow] at hscaled
  omega

/-! ## Decimals -/

theorem nearest_le (p q : Nat) : nearest p q ≤ infinityBits := Nat.min_le_right _ _

theorem magnitude_ofFraction (negative : Bool) (p q : Nat) :
    magnitude (ofFraction negative p q) = nearest p q :=
  magnitude_toFloat negative (nearest_le p q)

/-- **The float of a decimal** is a number, possibly an infinite one. -/
theorem magnitude_ofDigits_le (negative : Bool) (whole fraction : List Char) :
    magnitude (ofDigits negative whole fraction) ≤ infinityBits := by
  unfold ofDigits
  rw [magnitude_ofFraction]
  exact nearest_le _ _

/-- **Overflow.**  The float of a decimal is finite exactly if the decimal is below the bound,
    whatever its sign. -/
theorem isFinite_ofDigits_iff (negative : Bool) (whole fraction : List Char) :
    isFinite (ofDigits negative whole fraction) = true
      ↔ digitsValue (whole ++ fraction) < overflow * 10 ^ fraction.length := by
  unfold isFinite ofDigits
  rw [magnitude_ofFraction, decide_eq_true_eq]
  exact nearest_lt_infinityBits_iff (Nat.pow_pos (by decide))

/-- The text of a float that a decimal overflows to is a word, and no number. -/
theorem text_ofDigits_of_overflow (negative : Bool) {whole fraction : List Char}
    (h : overflow * 10 ^ fraction.length ≤ digitsValue (whole ++ fraction)) :
    text (ofDigits negative whole fraction) = (if negative then "-" else "") ++ "inf" := by
  have hnot : ¬ nearest (digitsValue (whole ++ fraction)) (10 ^ fraction.length)
      < infinityBits := by
    rw [nearest_lt_infinityBits_iff (Nat.pow_pos (by decide))]
    omega
  have hnearest := Nat.le_antisymm (nearest_le _ _) (Nat.not_lt.mp hnot)
  unfold text ofDigits ofFraction
  rw [hnearest, magnitude_toFloat negative (Nat.le_refl _),
    isNegative_toFloat negative (Nat.le_refl _)]
  dsimp only
  rw [if_neg (Nat.lt_irrefl _), if_pos rfl]

end Verdict.Decimal
