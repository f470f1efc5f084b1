/-
  Reading back — the text of a number denotes that number.

  1. **Exact fractions** — a fraction that IS the float of some pattern has that pattern for its
     nearest one (`nearest_of_ticks`), and so has every other way to write the fraction
     (`nearest_scaled`).

  2. **Shortest decimals** — what `decimalAt` keeps was read back before it was kept.  If nothing
     is kept up to 1074 places, the last candidate is the float exactly: the ticks of a decimal
     with 1074 places are a whole number of times `2¹⁰⁷⁴`.

  3. **Digits** — the digits that are written on the two sides of the point are those of the
     decimal, the zeros in front of the fraction included.

  4. **Floats** — so the text of a finite float is a sign and a decimal of which it is the float
     (`text_spec`).  This is the assumption that other programs make of their printing of floats.
-/
import Mathlib
import Verdict.Condition.Reader

namespace Verdict.Decimal

/-! ## Patterns and their ticks -/

theorem binade_mul_le (b : Nat) : binade b * 2 ^ fractionBits ≤ b := by
  have hdiv : b / 2 ^ fractionBits * 2 ^ fractionBits ≤ b := Nat.div_mul_le_self _ _
  have hle : binade b ≤ b / 2 ^ fractionBits := Nat.sub_le _ _
  exact Nat.le_trans (Nat.mul_le_mul_right _ hle) hdiv

/-- The binade of a pattern is found again in its ticks: in the binade `k` they are fewer than
    `2 ^ (k + 53)`, and unless it is the lowest one, at least `2 ^ (k + 52)`. -/
theorem log2_ticks (b : Nat) : (ticks b).log2 - fractionBits = binade b := by
  have hb := Nat.div_add_mod b (2 ^ fractionBits)
  have hmod : b % 2 ^ fractionBits < 2 ^ fractionBits := Nat.mod_lt _ (by decide)
  unfold ticks binade
  rcases Nat.lt_or_ge (b / 2 ^ fractionBits) 2 with hsmall | hlarge
  · -- Up to the first binade a pattern is its number of ticks.
    have hzero : b / 2 ^ fractionBits - 1 = 0 := by omega
    have hlt : b < 2 ^ (fractionBits + 1) := by
      rw [Nat.pow_succ]
      have := Nat.mul_le_mul_left (2 ^ fractionBits) (Nat.le_of_lt_succ hsmall)
      omega
    rw [hzero, Nat.zero_mul, Nat.sub_zero, Nat.pow_zero, Nat.mul_one]
    by_cases h0 : b = 0
    · subst h0
      rfl
    · have hlog := (Nat.log2_lt h0).mpr hlt
      omega
  · obtain ⟨k, hk⟩ : ∃ k, b / 2 ^ fractionBits = k + 1 := ⟨b / 2 ^ fractionBits - 1, by omega⟩
    rw [hk] at hb
    rw [hk, Nat.add_sub_cancel]
    have hm : b - k * 2 ^ fractionBits = 2 ^ fractionBits + b % 2 ^ fractionBits := by
      rw [Nat.mul_comm, Nat.add_mul, Nat.one_mul] at hb
      omega
    rw [hm]
    have hlog : ((2 ^ fractionBits + b % 2 ^ fractionBits) * 2 ^ k).log2 = fractionBits + k := by
      have hpos : 0 < 2 ^ k := Nat.two_pow_pos k
      have hpos' : 0 < 2 ^ fractionBits := Nat.two_pow_pos _
      rw [Nat.log2_eq_iff (by positivity)]
      constructor
      · rw [Nat.pow_add]
        exact Nat.mul_le_mul_right _ (Nat.le_add_right _ _)
      · rw [Nat.add_right_comm, Nat.pow_add, Nat.pow_succ]
        exact Nat.mul_lt_mul_of_pos_right (by omega) hpos
    omega

theorem ticks_div (b : Nat) : ticks b / 2 ^ binade b = b - binade b * 2 ^ fractionBits :=
  Nat.mul_div_cancel _ (Nat.two_pow_pos _)

/-- **A fraction that is the float of a pattern** is nearest to it: nothing is left to round. -/
theorem nearest_of_ticks {p q b : Nat} (hq : 0 < q) (hp : p * 2 ^ tickExponent = ticks b * q)
    (hb : b ≤ infinityBits) : nearest p q = b := by
  have hm := ticks_div b
  have hle := binade_mul_le b
  have hticks : (b - binade b * 2 ^ fractionBits) * 2 ^ binade b = ticks b := rfl
  have hpos : 0 < 2 ^ binade b * q := Nat.mul_pos (Nat.two_pow_pos _) hq
  unfold nearest
  simp only [hp, Nat.mul_div_cancel _ hq, log2_ticks, hm, hticks, Nat.sub_self, Nat.mul_zero]
  rw [Nat.compare_eq_lt.mpr hpos]
  dsimp only
  rw [Nat.add_sub_of_le hle, Nat.min_eq_left hb]

/-- Another way to write a fraction is nearest to the same pattern.  Both sides of the comparison
    that decides about the rest grow by the same factor. -/
theorem nearest_scaled {c : Nat} (hc : 0 < c) (p q : Nat) :
    nearest (p * c) (q * c) = nearest p q := by
  have hscaled : p * c * 2 ^ tickExponent = p * 2 ^ tickExponent * c := Nat.mul_right_comm _ _ _
  have hcompare : ∀ x y : Nat, compare (x * c) (y * c) = compare x y := by
    intro x y
    rcases Nat.lt_trichotomy x y with h | rfl | h
    · rw [Nat.compare_eq_lt.mpr h, Nat.compare_eq_lt.mpr (Nat.mul_lt_mul_of_pos_right h hc)]
    · rw [Nat.compare_eq_eq.mpr rfl, Nat.compare_eq_eq.mpr rfl]
    · rw [Nat.compare_eq_gt.mpr h, Nat.compare_eq_gt.mpr (Nat.mul_lt_mul_of_pos_right h hc)]
  have hpick : ∀ m k : Nat,
      compare (2 * (p * 2 ^ tickExponent * c - m * 2 ^ k * (q * c))) (2 ^ k * (q * c))
        = compare (2 * (p * 2 ^ tickExponent - m * 2 ^ k * q)) (2 ^ k * q) := by
    intro m k
    rw [← Nat.mul_assoc (m * 2 ^ k), ← Nat.sub_mul, ← Nat.mul_assoc 2, ← Nat.mul_assoc (2 ^ k),
      hcompare]
  unfold nearest
  simp only [hscaled, Nat.mul_div_mul_right _ _ hc, hpick]

/-! ## Shortest decimals -/

/-- A decimal that is kept was read back before it was kept. -/
theorem nearest_of_decimalAt {b places n : Nat} (h : decimalAt b places = some n) :
    nearest n (10 ^ places) = b := by
  unfold decimalAt at h
  generalize 2 ^ tickExponent = unit at h
  dsimp only at h
  split at h
  · rename_i hhigh
    cases h
    rw [Bool.and_eq_true] at hhigh
    exact eq_of_beq hhigh.1
  · split at h
    · rename_i hlow
      cases h
      exact eq_of_beq hlow
    · exact nomatch h

/-- With as many places as a tick has binary ones, every float is a decimal: `10 ^ t` is a whole
    number of times `2 ^ t`, so the division leaves no rest. -/
theorem nearest_exact {b : Nat} (hb : b ≤ infinityBits) {t : Nat} (ht : t = tickExponent) :
    nearest (ticks b * 10 ^ t / 2 ^ tickExponent) (10 ^ t) = b := by
  have hten : 10 ^ t = 5 ^ t * 2 ^ t := Nat.mul_pow 5 2 t
  refine nearest_of_ticks (Nat.pow_pos (by decide)) ?_ hb
  rw [← ht, hten, ← Nat.mul_assoc, Nat.mul_div_cancel _ (Nat.two_pow_pos t)]

/-- **The search** ends in a decimal that reads back, by induction on the tries that are left.  What
    is carried is that the places and the tries add up to those of a tick, so that the decimal that
    is taken unseen at the end is the exact one. -/
theorem nearest_firstFrom {b : Nat} (hb : b ≤ infinityBits) {tries places : Nat}
    (h : places + tries = tickExponent) {n q : Nat}
    (hfound : firstFrom (decimalAt b) (fun places => ticks b * 10 ^ places / 2 ^ tickExponent)
      tries places = (n, q)) : nearest n (10 ^ q) = b := by
  induction tries generalizing places with
  | zero =>
      rw [firstFrom] at hfound
      obtain ⟨rfl, rfl⟩ := Prod.mk.inj hfound
      exact nearest_exact hb h
  | succ tries ih =>
      rw [firstFrom] at hfound
      -- Either this many places suffice, or the search goes on with one place more.
      cases hat : decimalAt b places with
      | some m =>
          rw [hat] at hfound
          obtain ⟨rfl, rfl⟩ := Prod.mk.inj hfound
          exact nearest_of_decimalAt hat
      | none =>
          rw [hat] at hfound
          have hnext : places + 1 + tries = tickExponent := by
            rw [← h]
            omega
          exact ih hnext hfound

/-- **The decimal that is written reads back**, whatever the pattern. -/
theorem nearest_shortest {b n q : Nat} (hb : b ≤ infinityBits) (h : shortest b = (n, q)) :
    nearest n (10 ^ q) = b :=
  nearest_firstFrom hb (Nat.zero_add tickExponent) h

/-! ## Digits -/

/-- A row of digits, at least one of them. -/
def IsDigits (ds : List Char) : Prop := ds ≠ [] ∧ ∀ c ∈ ds, isDigit c = true

theorem isDigits_natural (n : Nat) : IsDigits (natural n) := by
  refine ⟨Nat.toDigits_ne_nil, fun c hc => ?_⟩
  exact Nat.isDigit_of_mem_toDigits (by decide) (by decide) hc

theorem digitsValue_natural (n : Nat) : digitsValue (natural n) = n := by
  rw [digitsValue_eq]
  exact Nat.ofDigitChars_ten_toDigits

/-- Zeros in front leave the value as it is. -/
theorem digitsValue_padded (width n : Nat) : digitsValue (padded width n) = n := by
  have hvalue := digitsValue_natural n
  rw [digitsValue_eq] at hvalue ⊢
  rw [padded, ofDigitChars_append_eq, hvalue, Nat.ofDigitChars_replicate_zero, Nat.mul_zero,
    Nat.zero_mul, Nat.zero_add]

theorem length_padded {width n : Nat} (hpos : 0 < width) (h : n < 10 ^ width) :
    (padded width n).length = width := by
  have hle : (natural n).length ≤ width := (Nat.length_toDigits_le_iff (by decide) hpos).mpr h
  rw [padded, List.length_append, List.length_replicate]
  omega

theorem isDigits_padded (width n : Nat) : IsDigits (padded width n) := by
  obtain ⟨hne, hdigits⟩ := isDigits_natural n
  refine ⟨fun h => hne (List.append_eq_nil_iff.mp h).2, fun c hc => ?_⟩
  rcases List.mem_append.mp hc with hzero | hmem
  · obtain rfl := List.eq_of_mem_replicate hzero
    decide
  · exact hdigits c hmem

/-- **A decimal is written** as digits on both sides of a point, which denote it.  Without places a
    zero stands behind the point, and the fraction is one with a tenfold denominator. -/
theorem positional_spec (n q : Nat) :
    ∃ whole fraction, positional n q = whole ++ '.' :: fraction ∧ IsDigits whole
      ∧ IsDigits fraction
      ∧ nearest (digitsValue (whole ++ fraction)) (10 ^ fraction.length) = nearest n (10 ^ q) := by
  unfold positional
  by_cases hq : q = 0
  · subst hq
    refine ⟨natural n, ['0'], rfl, isDigits_natural n, ⟨nofun, ?_⟩, ?_⟩
    · intro c hc
      obtain rfl := List.mem_singleton.mp hc
      decide
    · have hvalue := digitsValue_natural n
      rw [digitsValue_eq] at hvalue ⊢
      rw [ofDigitChars_append_eq, hvalue]
      show nearest (n * 10 + 0) (1 * 10) = nearest n 1
      exact nearest_scaled (by decide) n 1
  · have hpos : 0 < q := Nat.pos_of_ne_zero hq
    have hmod : n % 10 ^ q < 10 ^ q := Nat.mod_lt _ (Nat.pow_pos (by decide))
    have hlen := length_padded hpos hmod
    rw [if_neg hq]
    refine ⟨natural (n / 10 ^ q), padded q (n % 10 ^ q), rfl, isDigits_natural _,
      isDigits_padded _ _, ?_⟩
    have hwhole := digitsValue_natural (n / 10 ^ q)
    have hfraction := digitsValue_padded q (n % 10 ^ q)
    rw [digitsValue_eq] at hwhole hfraction ⊢
    rw [ofDigitChars_append_eq, hwhole, hfraction, hlen, Nat.div_add_mod']

/-! ## Floats -/

/-- A float is made again from its sign and its pattern, since the two are all its bits. -/
theorem toFloat_magnitude (x : Float) : toFloat (isNegative x) (magnitude x) = x := by
  have hlt : x.toBits.toNat < 2 ^ 64 := x.toBits.toNat_lt
  have hbits : (if isNegative x then magnitude x + 2 ^ 63 else magnitude x) = x.toBits.toNat := by
    unfold isNegative magnitude
    by_cases h : 2 ^ 63 ≤ x.toBits.toNat
    · rw [if_pos (decide_eq_true h)]
      omega
    · rw [if_neg (by rwa [decide_eq_true_eq])]
      omega
  unfold toFloat
  rw [hbits, UInt64.ofNat_toNat, Float.ofBits_toBits]

/-- **The text of a finite float** is a sign, and a decimal that reads back as the float. -/
theorem text_spec {x : Float} (h : isFinite x = true) :
    ∃ whole fraction, text x
        = String.ofList ((if isNegative x then ['-'] else []) ++ (whole ++ '.' :: fraction))
      ∧ IsDigits whole ∧ IsDigits fraction ∧ ofDigits (isNegative x) whole fraction = x := by
  have hlt : magnitude x < infinityBits := of_decide_eq_true h
  cases hshort : shortest (magnitude x) with
  | mk n q =>
      have hnear := nearest_shortest (Nat.le_of_lt hlt) hshort
      obtain ⟨whole, fraction, htext, hwhole, hfraction, hvalue⟩ := positional_spec n q
      refine ⟨whole, fraction, ?_, hwhole, hfraction, ?_⟩
      · unfold text
        dsimp only
        rw [if_neg (Nat.lt_asymm hlt), if_neg (Nat.ne_of_lt hlt), hshort, htext]
        split
        · have hminus : "-" = String.ofList ['-'] := rfl
          rw [hminus, ← String.ofList_append]
        · rw [List.nil_append, String.empty_append]
      · rw [ofDigits, ofFraction, hvalue, hnear]
        exact toFloat_magnitude x

end Verdict.Decimal

namespace Verdict.Condition

open Decimal

/-! ## Digits around a point -/

theorem ne_point_of_isDigit {c : Char} (h : isDigit c = true) : c ≠ '.' := by
  rintro rfl
  exact nomatch h

theorem ne_minus_of_isDigit {c : Char} (h : isDigit c = true) : c ≠ '-' := by
  rintro rfl
  exact nomatch h

theorem dropWhile_digits {ds : List Char} (h : ∀ c ∈ ds, isDigit c = true) (rest : List Char) :
    (ds ++ '.' :: rest).dropWhile (· ≠ '.') = '.' :: rest := by
  rw [List.dropWhile_append_of_pos]
  · rfl
  · intro c hc
    exact decide_eq_true (ne_point_of_isDigit (h c hc))

theorem takeWhile_digits {ds : List Char} (h : ∀ c ∈ ds, isDigit c = true) (rest : List Char) :
    (ds ++ '.' :: rest).takeWhile (· ≠ '.') = ds := by
  rw [List.takeWhile_append_of_pos]
  · simp
  · intro c hc
    exact decide_eq_true (ne_point_of_isDigit (h c hc))

end Verdict.Condition
