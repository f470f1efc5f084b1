/-
  The order of floats — how rounding and widening treat the order of numbers.

  1. **Rounding** — the pattern nearest to a fraction never falls when the fraction rises
     (`nearest_mono`): within a step of the patterns the comparison of the rest decides, and from
     one step to the next the pattern above the lower one is not above the pattern below the
     higher one.  Integers below `2⁵³` are patterns themselves, so none of them becomes one float
     with another integer (`nearest_lt_nearest`).

  2. **Floats** — floats have the order that the core library's model of them has, and none where
     one of them is not a number (`floatOrder_eq_none_iff`).  The model compares binades first and
     then the steps in them, so a finite float stands among the others where its pattern stands,
     negated below zero: its RANK (`floatOrder_toFloat`).

  3. **Integers** — widened integers compare as they did, or they have become ONE float
     (`floatOrder_ofInt`).  Only integers from `2⁵³` on can.
-/
import Mathlib
import Verdict.Proofs.Decimal.ReadBack
import Verdict.Scalar

namespace Verdict.Decimal

/-! ## Rounding keeps the order -/

/-- The binade that a whole number of ticks falls in. -/
def binadeOf (x : Nat) : Nat := x.log2 - fractionBits

/-- The pattern at a whole number of ticks, or the last one below it. -/
def patternBelow (x : Nat) : Nat := binadeOf x * 2 ^ fractionBits + x / 2 ^ binadeOf x

/-- The pattern that is taken when twice the rest stands so to the gap above `below`. -/
def roundedFrom (below : Nat) : Ordering → Nat
  | .lt => below
  | .eq => below + below % 2
  | .gt => below + 1

/-- What is left of a fraction above the pattern below it, in ticks and times the denominator. -/
def restOf (p q : Nat) : Nat :=
  let x := p * 2 ^ tickExponent / q
  p * 2 ^ tickExponent - x / 2 ^ binadeOf x * 2 ^ binadeOf x * q

/-- **Rounding in two parts**: a pattern that is not above the fraction, and a decision about the
    rest.  The two are monotone for different reasons. -/
theorem nearest_eq (p q : Nat) :
    nearest p q = min (roundedFrom (patternBelow (p * 2 ^ tickExponent / q))
      (compare (2 * restOf p q) (2 ^ binadeOf (p * 2 ^ tickExponent / q) * q))) infinityBits := by
  unfold nearest restOf patternBelow binadeOf
  dsimp only
  generalize compare (α := Nat) _ _ = o
  cases o <;> rfl

theorem le_roundedFrom (below : Nat) (o : Ordering) : below ≤ roundedFrom below o := by
  cases o <;> simp only [roundedFrom] <;> omega

theorem roundedFrom_le (below : Nat) (o : Ordering) : roundedFrom below o ≤ below + 1 := by
  cases o <;> simp only [roundedFrom] <;> omega

/-- Within one step a greater rest is not rounded to a lower pattern.  Halfway the even pattern is
    taken, which is one of the two. -/
theorem roundedFrom_mono (below : Nat) {x y gap : Nat} (h : x ≤ y) :
    roundedFrom below (compare x gap) ≤ roundedFrom below (compare y gap) := by
  rcases Nat.lt_trichotomy x gap with hx | rfl | hx
  · rw [Nat.compare_eq_lt.mpr hx]
    exact le_roundedFrom below _
  · rw [Nat.compare_eq_eq.mpr rfl]
    rcases Nat.lt_or_eq_of_le h with hlt | rfl
    · rw [Nat.compare_eq_gt.mpr hlt]
      simp only [roundedFrom]
      omega
    · rw [Nat.compare_eq_eq.mpr rfl]
  · rw [Nat.compare_eq_gt.mpr hx, Nat.compare_eq_gt.mpr (Nat.lt_of_lt_of_le hx h)]

/-- A number of ticks is less than two binades of steps, and at least one unless its binade is the
    lowest. -/
theorem div_binadeOf (x : Nat) :
    x / 2 ^ binadeOf x < 2 ^ (fractionBits + 1)
      ∧ (0 < binadeOf x → 2 ^ fractionBits ≤ x / 2 ^ binadeOf x) := by
  by_cases hx : x = 0
  · subst hx
    exact ⟨by decide, fun h => absurd h (by decide)⟩
  · obtain ⟨hlow, hhigh⟩ := (Nat.log2_eq_iff hx).mp rfl
    constructor
    · rw [Nat.div_lt_iff_lt_mul (Nat.two_pow_pos _), ← Nat.pow_add]
      refine Nat.lt_of_lt_of_le hhigh (Nat.pow_le_pow_right (by decide) ?_)
      unfold binadeOf
      omega
    · intro hpos
      rw [Nat.le_div_iff_mul_le (Nat.two_pow_pos _), ← Nat.pow_add]
      refine Nat.le_trans (Nat.pow_le_pow_right (by decide) ?_) hlow
      unfold binadeOf at hpos ⊢
      omega

theorem binadeOf_mono {x y : Nat} (h : x ≤ y) : binadeOf x ≤ binadeOf y := by
  have hlog : x.log2 ≤ y.log2 := by
    rw [Nat.log2_eq_log_two, Nat.log2_eq_log_two]
    exact Nat.log_mono_right h
  exact Nat.sub_le_sub_right hlog _

/-- A pattern in a lower binade, or lower in the same one, is a lower pattern. -/
theorem patternBelow_lt {x y : Nat} (h : x ≤ y)
    (hstep : binadeOf x = binadeOf y → x / 2 ^ binadeOf x < y / 2 ^ binadeOf y) :
    patternBelow x < patternBelow y := by
  obtain ⟨hwide, -⟩ := div_binadeOf x
  obtain ⟨-, hfull⟩ := div_binadeOf y
  unfold patternBelow
  rcases Nat.lt_or_eq_of_le (binadeOf_mono h) with hlt | heq
  · -- The first pattern of a binade follows the last one of the binade below it.
    have hfull := hfull (Nat.lt_of_le_of_lt (Nat.zero_le _) hlt)
    have hnext : (binadeOf x + 1) * 2 ^ fractionBits ≤ binadeOf y * 2 ^ fractionBits :=
      Nat.mul_le_mul_right _ hlt
    rw [Nat.pow_succ] at hwide
    rw [Nat.add_mul, Nat.one_mul] at hnext
    omega
  · have hstep := hstep heq
    rw [heq] at hstep ⊢
    exact Nat.add_lt_add_left hstep _

/-- **Rounding is monotone.**  If both fractions have the same pattern below them, the rest decides.
    If not, rounding the lower one reaches at most the next pattern, and the pattern below the
    higher one is that pattern or a later one. -/
theorem nearest_mono {p p' : Nat} (q : Nat) (h : p ≤ p') : nearest p q ≤ nearest p' q := by
  have hscaled : p * 2 ^ tickExponent ≤ p' * 2 ^ tickExponent := Nat.mul_le_mul_right _ h
  have hx := Nat.div_le_div_right (c := q) hscaled
  rw [nearest_eq, nearest_eq]
  refine min_le_min_right _ ?_
  by_cases hsame : binadeOf (p * 2 ^ tickExponent / q) = binadeOf (p' * 2 ^ tickExponent / q)
      ∧ p * 2 ^ tickExponent / q / 2 ^ binadeOf (p * 2 ^ tickExponent / q)
        = p' * 2 ^ tickExponent / q / 2 ^ binadeOf (p' * 2 ^ tickExponent / q)
  · obtain ⟨hbinade, hpattern⟩ := hsame
    have hrest : restOf p q ≤ restOf p' q := by
      unfold restOf
      dsimp only
      rw [hpattern, hbinade]
      exact Nat.sub_le_sub_right hscaled _
    unfold patternBelow
    rw [hpattern, hbinade]
    exact roundedFrom_mono _ (Nat.mul_le_mul_left 2 hrest)
  · have hlt : patternBelow (p * 2 ^ tickExponent / q)
        < patternBelow (p' * 2 ^ tickExponent / q) := by
      refine patternBelow_lt hx fun hbinade => ?_
      refine Nat.lt_of_le_of_ne ?_ fun hpattern => hsame ⟨hbinade, hpattern⟩
      rw [hbinade]
      exact Nat.div_le_div_right hx
    exact Nat.le_trans (roundedFrom_le _ _) (Nat.le_trans hlt (le_roundedFrom _ _))

/-! ## Integers that are exact -/

/-- The first integer that can become one float with another integer. -/
def exactLimit : Nat := 2 ^ (53 : Nat)

/-- An integer below `2⁵³` is a whole number of steps of its binade. -/
theorem binadeOf_le_of_small {p : Nat} (h : p < exactLimit) :
    binadeOf (p * 2 ^ tickExponent) ≤ tickExponent := by
  by_cases hp : p = 0
  · subst hp
    rw [Nat.zero_mul]
    decide
  · have hlog : (p * 2 ^ tickExponent).log2 < 53 + tickExponent := by
      rw [Nat.log2_lt (Nat.mul_ne_zero hp (Nat.two_pow_pos _).ne'), Nat.pow_add]
      exact Nat.mul_lt_mul_of_pos_right h (Nat.two_pow_pos _)
    unfold binadeOf fractionBits
    omega

theorem patternBelow_lt_of_small {p : Nat} (h : p < exactLimit) :
    patternBelow (p * 2 ^ tickExponent) < infinityBits := by
  have hbinade : binadeOf (p * 2 ^ tickExponent) ≤ 1074 := binadeOf_le_of_small h
  have hwide := (div_binadeOf (p * 2 ^ tickExponent)).1
  unfold patternBelow
  have hmul := Nat.mul_le_mul_right (2 ^ fractionBits) hbinade
  have hbits : (1074 + 2) * 2 ^ fractionBits < infinityBits := by decide
  rw [Nat.pow_succ] at hwide
  omega

/-- An integer below `2⁵³` is the float that it widens to: its binade is so low that the steps of
    the binade divide it, and nothing is left to round. -/
theorem nearest_of_small {p : Nat} (h : p < exactLimit) :
    nearest p 1 = patternBelow (p * 2 ^ tickExponent) := by
  have hrest : restOf p 1 = 0 := by
    have hdvd : 2 ^ binadeOf (p * 2 ^ tickExponent) ∣ p * 2 ^ tickExponent :=
      Dvd.dvd.mul_left (Nat.pow_dvd_pow 2 (binadeOf_le_of_small h)) p
    unfold restOf
    rw [Nat.div_one]
    dsimp only
    rw [Nat.div_mul_cancel hdvd, Nat.mul_one, Nat.sub_self]
  have hpos : 2 * 0 < 2 ^ binadeOf (p * 2 ^ tickExponent) * 1 := by
    rw [Nat.mul_one]
    exact Nat.two_pow_pos _
  rw [nearest_eq, hrest, Nat.div_one, Nat.compare_eq_lt.mpr hpos]
  exact Nat.min_eq_left (Nat.le_of_lt (patternBelow_lt_of_small h))

/-- **Small integers are told apart**, from each other and from all greater ones. -/
theorem nearest_lt_nearest {p p' : Nat} (h : p < p') (hp : p < exactLimit) :
    nearest p 1 < nearest p' 1 := by
  have hscaled : p * 2 ^ tickExponent + 2 ^ tickExponent ≤ p' * 2 ^ tickExponent := by
    rw [← Nat.succ_mul]
    exact Nat.mul_le_mul_right _ h
  have hbelow : patternBelow (p * 2 ^ tickExponent) < patternBelow (p' * 2 ^ tickExponent) := by
    refine patternBelow_lt (Nat.le_trans (Nat.le_add_right _ _) hscaled) fun hbinade => ?_
    rw [← hbinade]
    refine (Nat.le_div_iff_mul_le (Nat.two_pow_pos _)).mpr (Nat.le_trans ?_ hscaled)
    rw [Nat.succ_mul]
    exact Nat.add_le_add (Nat.div_mul_le_self _ _)
      (Nat.pow_le_pow_right (by decide) (binadeOf_le_of_small hp))
  rw [nearest_of_small hp, nearest_eq, Nat.div_one]
  exact Nat.lt_min.mpr
    ⟨Nat.lt_of_lt_of_le hbelow (le_roundedFrom _ _), patternBelow_lt_of_small hp⟩

/-- A greater integer has a higher pattern, or both are large and have the same one. -/
theorem nearest_lt_or_eq {p p' : Nat} (h : p < p') : nearest p 1 < nearest p' 1
    ∨ nearest p 1 = nearest p' 1 ∧ exactLimit ≤ p ∧ exactLimit ≤ p' := by
  rcases Nat.lt_or_ge p exactLimit with hexact | hlarge
  · exact Or.inl (nearest_lt_nearest h hexact)
  · rcases Nat.lt_or_eq_of_le (nearest_mono 1 (Nat.le_of_lt h)) with hlt | heq
    · exact Or.inl hlt
    · exact Or.inr ⟨heq, hlarge, Nat.le_trans hlarge (Nat.le_of_lt h)⟩

/-- No 64-bit integer is too large for a float. -/
theorem nearest_lt_infinityBits {p : Nat} (h : p ≤ 2 ^ (63 : Nat)) : nearest p 1 < infinityBits :=
  Nat.lt_of_le_of_lt (nearest_mono 1 h) (by decide +kernel)

/-! ## The order of floats -/

/-- Where a finite float stands among all of them: its pattern, negated below zero.  The two zeros
    stand at one place. -/
def rank (negative : Bool) (b : Nat) : Int := if negative then -b else b

theorem rank_positive (b : Nat) : rank false b = b := rfl

theorem rank_negative (b : Nat) : rank true b = -b := rfl

theorem rank_zero (negative : Bool) : rank negative 0 = 0 := by
  cases negative <;> rfl

/-- The sign of a float, as the model of floats names it. -/
def signOf (negative : Bool) : Float.Model.UnpackedFloat.Sign :=
  if negative then .negative else .positive

/-- A pattern above zero is not at the beginning of its binade. -/
theorem binade_mul_lt {b : Nat} (h : b ≠ 0) : 0 < b - binade b * 2 ^ fractionBits := by
  have hdiv := Nat.div_add_mod b (2 ^ fractionBits)
  have hpos : 0 < 2 ^ fractionBits := Nat.two_pow_pos _
  unfold binade
  rw [Nat.sub_mul, Nat.one_mul]
  rw [Nat.mul_comm] at hdiv
  rcases Nat.eq_zero_or_pos (b / 2 ^ fractionBits) with hzero | hone
  · rw [hzero, Nat.zero_mul]
    omega
  · have hle := Nat.mul_le_mul_right (2 ^ fractionBits) hone
    omega

/-- A finite float in the model of floats: its step in its binade, and its binade. -/
def unpacked (negative : Bool) (b : Nat) : Float.Model.UnpackedFloat :=
  if h : b = 0 then .zero (signOf negative)
  else .finite (signOf negative) (b - binade b * 2 ^ fractionBits) (binade b - tickExponent)
    (binade_mul_lt h)

section Model

open Float.Model Float.Model.UnpackedFloat

variable {negative : Bool} {b : Nat} {v : BitVec Format.binary64.numBits}

/-- The exponent field holds the high bits of the pattern. -/
theorem unpackExponent_toNat (h : b ≤ infinityBits)
    (hv : v.toNat = if negative then b + 2 ^ (63 : Nat) else b) :
    (unpackExponent v).toNat = b / 2 ^ fractionBits := by
  have hb : b ≤ 2047 * 2 ^ (52 : Nat) := h
  rw [unpackExponent_def, BitVec.extractLsb'_toNat, hv, Nat.shiftRight_eq_div_pow]
  show _ / 2 ^ 52 % 2 ^ 11 = b / 2 ^ 52
  cases negative <;> simp only [if_true, if_false, Bool.false_eq_true] <;> omega

/-- A finite float has no exponent field of ones only. -/
theorem unpackExponent_ne (h : b < infinityBits)
    (hv : v.toNat = if negative then b + 2 ^ (63 : Nat) else b) : unpackExponent v ≠ -1#_ := by
  have hb : b < 2047 * 2 ^ (52 : Nat) := h
  intro hall
  have hvalue : (unpackExponent v).toNat = 2047 := by
    rw [hall]
    rfl
  rw [unpackExponent_toNat (Nat.le_of_lt h) hv] at hvalue
  unfold fractionBits at hvalue
  omega

/-- The fraction field holds the low bits of the pattern. -/
theorem unpackMantissa_toNat (hv : v.toNat = if negative then b + 2 ^ (63 : Nat) else b) :
    (unpackMantissa v).toNat = b % 2 ^ fractionBits := by
  rw [unpackMantissa_def, BitVec.extractLsb'_toNat, hv, Nat.shiftRight_eq_div_pow]
  show _ / 2 ^ 0 % 2 ^ 52 = b % 2 ^ 52
  cases negative <;> simp only [if_true, if_false, Bool.false_eq_true] <;> omega

/-- The sign field holds the bit above the pattern. -/
theorem ofBitVec_unpackSign (h : b ≤ infinityBits)
    (hv : v.toNat = if negative then b + 2 ^ (63 : Nat) else b) :
    Sign.ofBitVec (unpackSign v) = signOf negative := by
  have hb : b ≤ 2047 * 2 ^ (52 : Nat) := h
  have hbit : (unpackSign v).toNat = if negative then 1 else 0 := by
    rw [unpackSign_def, BitVec.extractLsb'_toNat, hv, Nat.shiftRight_eq_div_pow]
    show _ / 2 ^ 63 % 2 ^ 1 = _
    cases negative <;> simp only [if_true, if_false, Bool.false_eq_true] <;> omega
  unfold Sign.ofBitVec signOf
  cases negative with
  | true =>
      have hone : unpackSign v = 1#1 := BitVec.eq_of_toNat_eq hbit
      rw [hone]
      rfl
  | false =>
      have hzero : unpackSign v = 0#1 := BitVec.eq_of_toNat_eq hbit
      rw [hzero]
      rfl

/-- No pattern up to that of infinity stands for what is not a number. -/
theorem not_isNaNBits (h : b ≤ infinityBits)
    (hv : v.toNat = if negative then b + 2 ^ (63 : Nat) else b) : ¬ isNaNBits v = true := by
  have hb : b ≤ 2047 * 2 ^ (52 : Nat) := h
  unfold isNaNBits
  rw [decide_eq_true_eq]
  rintro ⟨hexponent, hmantissa⟩
  have hvalue : (unpackExponent v).toNat = 2047 := by
    rw [hexponent]
    rfl
  refine hmantissa (BitVec.eq_of_toNat_eq ?_)
  rw [unpackExponent_toNat h hv] at hvalue
  rw [unpackMantissa_toNat hv]
  show b % 2 ^ fractionBits = 0
  unfold fractionBits at hvalue ⊢
  omega

/-- With the bit that a pattern does not hold, the fraction counts the steps in the binade. -/
theorem hidden_bit {k : Nat} (hk : b / 2 ^ fractionBits = k + 1) :
    1 <<< fractionBits ||| b % 2 ^ fractionBits = b - k * 2 ^ fractionBits := by
  have hfraction : b % 2 ^ fractionBits < 2 ^ fractionBits :=
    Nat.mod_lt b (Nat.two_pow_pos fractionBits)
  have hbit := Nat.two_pow_add_eq_or_of_lt hfraction 1
  have hdiv := Nat.div_add_mod b (2 ^ fractionBits)
  rw [Nat.mul_one] at hbit
  rw [hk, Nat.mul_succ, Nat.mul_comm] at hdiv
  rw [Nat.one_shiftLeft, ← hbit]
  omega

/-- The bits of a finite float name its sign, its binade and its step.  Three cases, as the model
    of floats has them: zero, a pattern below the first full binade, and one with the hidden bit. -/
theorem unpack_bits (h : b < infinityBits)
    (hv : v.toNat = if negative then b + 2 ^ (63 : Nat) else b) :
    UnpackedFloat.unpack .binary64 v = unpacked negative b := by
  have hexponent := unpackExponent_toNat (Nat.le_of_lt h) hv
  have hmantissa := unpackMantissa_toNat hv
  have hzero : unpackExponent v = 0#_ ↔ b / 2 ^ fractionBits = 0 := by
    rw [← hexponent]
    exact BitVec.toNat_eq
  have hmantissa_zero : unpackMantissa v = 0#_ ↔ b % 2 ^ fractionBits = 0 := by
    rw [← hmantissa]
    exact BitVec.toNat_eq
  have hdiv := Nat.div_add_mod b (2 ^ fractionBits)
  unfold UnpackedFloat.unpack unpacked
  simp only [ofBitVec_unpackSign (Nat.le_of_lt h) hv, hexponent, hmantissa,
    if_neg (unpackExponent_ne h hv), hzero, hmantissa_zero]
  by_cases hb0 : b = 0
  · subst hb0
    rfl
  rw [dif_neg hb0]
  by_cases hsub : b / 2 ^ fractionBits = 0
  · -- Below the first binade the pattern is the fraction.
    have hmod : ¬ b % 2 ^ fractionBits = 0 := by
      rw [hsub] at hdiv
      omega
    have hlowest : binade b = 0 := by
      unfold binade
      rw [hsub]
    rw [if_pos hsub, dif_neg hmod]
    congr 1
    · rw [hlowest, Nat.zero_mul, Nat.sub_zero]
      rw [hsub] at hdiv
      omega
    · rw [hlowest, hsub]
      rfl
  · -- From there on a bit is added that the pattern does not hold.
    obtain ⟨k, hk⟩ : ∃ k, b / 2 ^ fractionBits = k + 1 := ⟨b / 2 ^ fractionBits - 1, by omega⟩
    have hbinade : binade b = k := by
      unfold binade
      rw [hk, Nat.add_sub_cancel]
    rw [if_neg hsub]
    congr 1
    · rw [BitVec.toNat_append, hbinade, hmantissa]
      exact hidden_bit hk
    · rw [hbinade, hk]
      show ((k + 1 : Nat) : Int) - 1075 = (k : Int) - 1074
      omega

/-- The bits of a float are its sign and its pattern.  A float is made by packing what was unpacked
    from the bits, which changes them only for what is not a number. -/
theorem toBits_toFloat (negative : Bool) (h : b ≤ infinityBits) :
    (toFloat negative b).toBits.toNat = if negative then b + 2 ^ (63 : Nat) else b := by
  have hlt : (if negative then b + 2 ^ (63 : Nat) else b) < 2 ^ 64 := by
    have hb : b ≤ 2047 * 2 ^ (52 : Nat) := h
    cases negative <;> simp only [if_true, if_false, Bool.false_eq_true] <;> omega
  have hv : (UInt64.ofNat (if negative then b + 2 ^ (63 : Nat) else b)).toBitVec.toNat
      = if negative then b + 2 ^ (63 : Nat) else b := Nat.mod_eq_of_lt hlt
  show (UnpackedFloat.pack .binary64 (UnpackedFloat.unpack .binary64
    (UInt64.ofNat (if negative then b + 2 ^ (63 : Nat) else b)).toBitVec)).toNat = _
  rw [pack_unpack, if_neg (not_isNaNBits h hv)]
  exact hv

/-- A finite float in the model of floats. -/
theorem unpack_toFloat (negative : Bool) (h : b < infinityBits) :
    (toFloat negative b).toModel.unpack = unpacked negative b :=
  unpack_bits h (toBits_toFloat negative (Nat.le_of_lt h))

/-- A float is made with its pattern. -/
theorem magnitude_toFloat (negative : Bool) (h : b ≤ infinityBits) :
    magnitude (toFloat negative b) = b := by
  have hb : b ≤ 2047 * 2 ^ (52 : Nat) := h
  unfold magnitude
  rw [toBits_toFloat negative h]
  cases negative <;> simp only [if_true, if_false, Bool.false_eq_true] <;> omega

/-- A float is made with its sign. -/
theorem isNegative_toFloat (negative : Bool) (h : b ≤ infinityBits) :
    isNegative (toFloat negative b) = negative := by
  have hb : b ≤ 2047 * 2 ^ (52 : Nat) := h
  unfold isNegative
  rw [toBits_toFloat negative h]
  cases negative with
  | true => exact decide_eq_true (Nat.le_add_left _ _)
  | false =>
      refine decide_eq_false (Nat.not_le.mpr ?_)
      show b < 2 ^ (63 : Nat)
      omega

end Model

/-! ## Comparing -/

/-- A pattern in a lower binade is a lower pattern. -/
theorem lt_of_binade_lt {b c : Nat} (h : binade b < binade c) : b < c := by
  refine Nat.lt_of_not_le fun hle => ?_
  have hdiv := Nat.div_le_div_right (c := 2 ^ fractionBits) hle
  unfold binade at h
  omega

/-- Binades first, then the steps in them: this is the order of the patterns. -/
theorem compare_binade (b c : Nat) :
    (compare ((binade b : Int) - tickExponent) ((binade c : Int) - tickExponent)).then
      (compare (b - binade b * 2 ^ fractionBits) (c - binade c * 2 ^ fractionBits))
      = compare b c := by
  have hb := binade_mul_le b
  have hc := binade_mul_le c
  rcases Nat.lt_trichotomy (binade b) (binade c) with hlt | heq | hgt
  · rw [compare_lt_iff_lt.mpr (by omega), Nat.compare_eq_lt.mpr (lt_of_binade_lt hlt)]
    rfl
  · rw [heq] at hb ⊢
    rw [compare_eq_iff_eq.mpr rfl, Ordering.eq_then]
    generalize binade c * 2 ^ fractionBits = base at hb hc
    rcases Nat.lt_trichotomy b c with h | rfl | h
    · rw [Nat.compare_eq_lt.mpr h, Nat.compare_eq_lt.mpr (by omega)]
    · rw [Nat.compare_eq_eq.mpr rfl, Nat.compare_eq_eq.mpr rfl]
    · rw [Nat.compare_eq_gt.mpr h, Nat.compare_eq_gt.mpr (by omega)]
  · rw [compare_gt_iff_gt.mpr (by omega), Nat.compare_eq_gt.mpr (lt_of_binade_lt hgt)]
    rfl

/-- Above zero the ranks are in the order of the patterns. -/
theorem compare_rank_positive (b c : Nat) :
    compare (rank false b) (rank false c) = compare b c := by
  show compare (b : Int) c = compare b c
  rcases Nat.lt_trichotomy b c with h | rfl | h
  · rw [Nat.compare_eq_lt.mpr h, compare_lt_iff_lt.mpr (by omega)]
  · rw [Nat.compare_eq_eq.mpr rfl, compare_eq_iff_eq.mpr rfl]
  · rw [Nat.compare_eq_gt.mpr h, compare_gt_iff_gt.mpr (by omega)]

/-- Below zero they are in the reverse order. -/
theorem compare_rank_negative (b c : Nat) :
    compare (rank true b) (rank true c) = (compare b c).swap := by
  show compare (-(b : Int)) (-c) = (compare b c).swap
  rcases Nat.lt_trichotomy b c with h | rfl | h
  · rw [Nat.compare_eq_lt.mpr h, compare_gt_iff_gt.mpr (by omega)]
    rfl
  · rw [Nat.compare_eq_eq.mpr rfl, compare_eq_iff_eq.mpr rfl]
    rfl
  · rw [Nat.compare_eq_gt.mpr h, compare_lt_iff_lt.mpr (by omega)]
    rfl

/-- What is negative comes before what is not, unless both are zero. -/
theorem compare_rank_true_false {b c : Nat} (h : b ≠ 0 ∨ c ≠ 0) :
    compare (rank true b) (rank false c) = .lt := by
  rw [rank_negative, rank_positive, compare_lt_iff_lt]
  omega

theorem compare_rank_false_true {b c : Nat} (h : b ≠ 0 ∨ c ≠ 0) :
    compare (rank false b) (rank true c) = .gt := by
  rw [rank_negative, rank_positive, compare_gt_iff_gt]
  omega

/-- The model of floats has the order of the ranks.  The cases are those of the model: zeros first,
    then signs, and binades and steps only where the signs are the same. -/
theorem compare_unpacked (s t : Bool) (b c : Nat) :
    (unpacked s b).compare (unpacked t c) = some (compare (rank s b) (rank t c)) := by
  unfold unpacked
  by_cases hb : b = 0 <;> by_cases hc : c = 0
  · -- Two zeros are equal, whatever their signs.
    rw [dif_pos hb, dif_pos hc, hb, hc, rank_zero, rank_zero]
    cases s <;> cases t <;> rfl
  · -- A zero has the rank zero with either sign: it takes the one that the other float lacks.
    rw [dif_pos hb, dif_neg hc, hb, rank_zero]
    cases t with
    | true =>
        rw [← rank_zero false, compare_rank_false_true (Or.inr hc)]
        rfl
    | false =>
        rw [← rank_zero true, compare_rank_true_false (Or.inr hc)]
        rfl
  · rw [dif_neg hb, dif_pos hc, hc, rank_zero]
    cases s with
    | true =>
        rw [← rank_zero false, compare_rank_true_false (Or.inl hb)]
        rfl
    | false =>
        rw [← rank_zero true, compare_rank_false_true (Or.inl hb)]
        rfl
  · rw [dif_neg hb, dif_neg hc]
    cases s <;> cases t
    · rw [compare_rank_positive]
      exact congrArg some (compare_binade b c)
    · rw [compare_rank_false_true (Or.inl hb)]
      rfl
    · rw [compare_rank_true_false (Or.inl hb)]
      rfl
    · rw [compare_rank_negative]
      exact congrArg (fun o => some (Ordering.swap o)) (compare_binade b c)

/-! ## The order that the model has -/

section Model

open Float.Model Float.Model.UnpackedFloat

/-- Binades and steps, compared the other way round. -/
theorem compare_steps_swap (e e' : Int) (m m' : Nat) :
    (compare e' e).then (compare m' m) = ((compare e e').then (compare m m')).swap := by
  rw [Ordering.swap_then, Std.OrientedOrd.eq_swap (a := e'), Std.OrientedOrd.eq_swap (a := m')]

/-- The model of floats compares alike either way round. -/
theorem compare_swap_unpacked (x y : UnpackedFloat) :
    y.compare x = (x.compare y).map Ordering.swap := by
  cases x with
  | notANumber => cases y <;> rfl
  | infinity s =>
      cases y with
      | notANumber => rfl
      | infinity t => cases s <;> cases t <;> rfl
      | zero t => cases s <;> rfl
      | finite t => cases s <;> cases t <;> rfl
  | zero s =>
      cases y with
      | notANumber => rfl
      | infinity t => cases t <;> rfl
      | zero t => rfl
      | finite t => cases t <;> rfl
  | finite s m e =>
      cases y with
      | notANumber => rfl
      | infinity t => cases s <;> cases t <;> rfl
      | zero t => cases s <;> rfl
      | finite t m' e' =>
          cases s <;> cases t
          · exact congrArg (fun o => some (Ordering.swap o)) (compare_steps_swap e e' m m')
          · rfl
          · rfl
          · exact congrArg some (compare_steps_swap e e' m m')

/-- Two numbers have an order in the model of floats: one case for each pair of classes. -/
theorem compare_unpacked_of_numbers {x y : UnpackedFloat} (hx : x.isNaN = false)
    (hy : y.isNaN = false) : ∃ o, x.compare y = some o := by
  cases x with
  | notANumber => exact nomatch hx
  | infinity s =>
      cases y with
      | notANumber => exact nomatch hy
      | infinity t => exact ⟨_, rfl⟩
      | _ => cases s <;> exact ⟨_, rfl⟩
  | zero s =>
      cases y with
      | notANumber => exact nomatch hy
      | zero t => exact ⟨_, rfl⟩
      | infinity t => cases t <;> exact ⟨_, rfl⟩
      | finite t => cases t <;> exact ⟨_, rfl⟩
  | finite s =>
      cases y with
      | notANumber => exact nomatch hy
      | zero t => cases s <;> exact ⟨_, rfl⟩
      | infinity t => cases s <;> cases t <;> exact ⟨_, rfl⟩
      | finite t => cases s <;> cases t <;> exact ⟨_, rfl⟩

theorem compare_unpacked_eq_none_iff {x y : UnpackedFloat} :
    x.compare y = none ↔ x.isNaN = true ∨ y.isNaN = true := by
  constructor
  · intro hnone
    by_contra hnumbers
    rw [not_or, Bool.not_eq_true, Bool.not_eq_true] at hnumbers
    obtain ⟨o, ho⟩ := compare_unpacked_of_numbers hnumbers.1 hnumbers.2
    rw [hnone] at ho
    cases ho
  · rintro (hx | hy)
    · cases x with
      | notANumber => rfl
      | _ => exact nomatch hx
    · cases y with
      | notANumber => cases x <;> rfl
      | _ => exact nomatch hy

end Model

/-- The order of floats is the one that their model has.  The program asks three questions, `<`,
    `==` and `>`, and each one is asked of the model's comparison; the third is asked the other way
    round. -/
theorem floatOrder_eq_compare (x y : Float) :
    Scalar.floatOrder x y = x.toModel.unpack.compare y.toModel.unpack := by
  have hlt : x < y ↔ x.toModel.unpack.compare y.toModel.unpack = some .lt := by
    show decide (x.toModel.unpack.lt y.toModel.unpack = true) = true ↔ _
    rw [decide_eq_true_eq, Float.Model.UnpackedFloat.lt, beq_iff_eq]
  have heq : (x == y) = true ↔ x.toModel.unpack.compare y.toModel.unpack = some .eq := by
    show x.toModel.unpack.beq y.toModel.unpack = true ↔ _
    rw [Float.Model.UnpackedFloat.beq, beq_iff_eq]
  have hgt : y < x ↔ x.toModel.unpack.compare y.toModel.unpack = some .gt := by
    show decide (y.toModel.unpack.lt x.toModel.unpack = true) = true ↔ _
    rw [decide_eq_true_eq, Float.Model.UnpackedFloat.lt, beq_iff_eq, compare_swap_unpacked]
    cases x.toModel.unpack.compare y.toModel.unpack with
    | none => exact ⟨nofun, nofun⟩
    | some o => cases o <;> decide
  unfold Scalar.floatOrder
  generalize x.toModel.unpack.compare y.toModel.unpack = o at hlt heq hgt
  cases o with
  | none => simp [hlt, heq, hgt]
  | some o => cases o <;> simp [hlt, heq, hgt]

/-- **Unordered.**  Two floats have no order exactly if one of them is not a number. -/
theorem floatOrder_eq_none_iff {x y : Float} :
    Scalar.floatOrder x y = none ↔ x.isNaN = true ∨ y.isNaN = true := by
  rw [floatOrder_eq_compare]
  exact compare_unpacked_eq_none_iff

/-- **Finite floats are ordered by their ranks.** -/
theorem floatOrder_toFloat (s t : Bool) {b c : Nat} (hb : b < infinityBits)
    (hc : c < infinityBits) :
    Scalar.floatOrder (toFloat s b) (toFloat t c) = some (compare (rank s b) (rank t c)) := by
  rw [floatOrder_eq_compare, unpack_toFloat s hb, unpack_toFloat t hc, compare_unpacked]

/-! ## Widened integers -/

/-- Where the float stands that an integer widens to. -/
def intRank (n : Int) : Int := rank (n < 0) (nearest n.natAbs 1)

/-- **Different integers** keep their order when they are widened, or they become ONE float; this
    befalls integers from `2⁵³` on alone.  One case for each pair of signs: below zero the greater
    magnitude is the lesser integer, and across zero the order is never lost. -/
theorem intRank_lt {n m : Int} (h : n < m) :
    intRank n < intRank m
      ∨ ofInt n = ofInt m ∧ exactLimit ≤ n.natAbs ∧ exactLimit ≤ m.natAbs := by
  unfold intRank ofInt ofFraction
  rcases lt_or_ge n 0 with hn | hn <;> rcases lt_or_ge m 0 with hm | hm
  · rw [decide_eq_true hn, decide_eq_true hm, rank_negative, rank_negative]
    rcases nearest_lt_or_eq (show m.natAbs < n.natAbs by omega) with hlt | ⟨heq, hm53, hn53⟩
    · exact Or.inl (by omega)
    · exact Or.inr ⟨by rw [heq], hn53, hm53⟩
  · have hpos : nearest 0 1 < nearest n.natAbs 1 := nearest_lt_nearest (by omega) (by decide)
    rw [decide_eq_true hn, decide_eq_false (by omega), rank_negative, rank_positive]
    exact Or.inl (by omega)
  · omega
  · rw [decide_eq_false (by omega), decide_eq_false (by omega), rank_positive, rank_positive]
    rcases nearest_lt_or_eq (show n.natAbs < m.natAbs by omega) with hlt | ⟨heq, hn53, hm53⟩
    · exact Or.inl (by omega)
    · exact Or.inr ⟨by rw [heq], hn53, hm53⟩

/-- **Widened integers compare as they did**, or they were different and have become one float. -/
theorem floatOrder_ofInt {n m : Int} (hn : n.natAbs ≤ 2 ^ (63 : Nat))
    (hm : m.natAbs ≤ 2 ^ (63 : Nat)) :
    Scalar.floatOrder (ofInt n) (ofInt m) = some (compare n m)
      ∨ n ≠ m ∧ ofInt n = ofInt m ∧ exactLimit ≤ n.natAbs ∧ exactLimit ≤ m.natAbs := by
  have horder : Scalar.floatOrder (ofInt n) (ofInt m) = some (compare (intRank n) (intRank m)) :=
    floatOrder_toFloat _ _ (nearest_lt_infinityBits hn) (nearest_lt_infinityBits hm)
  rw [horder]
  rcases lt_trichotomy n m with h | rfl | h
  · rcases intRank_lt h with hlt | hone
    · exact Or.inl (by rw [compare_lt_iff_lt.mpr hlt, compare_lt_iff_lt.mpr h])
    · exact Or.inr ⟨ne_of_lt h, hone⟩
  · exact Or.inl (by rw [compare_eq_iff_eq.mpr rfl, compare_eq_iff_eq.mpr rfl])
  · rcases intRank_lt h with hlt | ⟨hone, hm53, hn53⟩
    · exact Or.inl (by rw [compare_gt_iff_gt.mpr hlt, compare_gt_iff_gt.mpr h])
    · exact Or.inr ⟨ne_of_gt h, hone.symm, hn53, hm53⟩

/-- A widened integer is a number: it compares as equal with itself. -/
theorem floatOrder_ofInt_self {n : Int} (hn : n.natAbs ≤ 2 ^ (63 : Nat)) :
    Scalar.floatOrder (ofInt n) (ofInt n) = some .eq := by
  have horder : Scalar.floatOrder (ofInt n) (ofInt n) = some (compare (intRank n) (intRank n)) :=
    floatOrder_toFloat _ _ (nearest_lt_infinityBits hn) (nearest_lt_infinityBits hn)
  rw [horder, compare_eq_iff_eq.mpr rfl]

theorem natAbs_toInt_le (n : Int64) : n.toInt.natAbs ≤ 2 ^ (63 : Nat) := by
  have hlow := n.le_toInt
  have hhigh := n.toInt_lt
  show n.toInt.natAbs ≤ 9223372036854775808
  omega

/-- A widened integer is a number. -/
theorem isNaN_ofInt (n : Int64) : (ofInt n.toInt).isNaN = false := by
  have hself := floatOrder_ofInt_self (natAbs_toInt_le n)
  rw [← Bool.not_eq_true]
  intro hnan
  rw [floatOrder_eq_none_iff.mpr (Or.inl hnan)] at hself
  cases hself

end Verdict.Decimal
