/-
  Numerals — the numbers of a text, and the numbers of the condition that is read from it.

  1. **Specification** — `Denotes`: a numeral is a row of digits, possibly behind a minus sign and
     possibly with a fraction.  It denotes an integer EXACTLY, or the float nearest to a decimal.

  2. **Writing** — the text of an integer and of a finite float is a numeral that denotes it
     (`number?_integer`, `number?_float`).

  3. **Scanning** — every number among the tokens of a text is a numeral (`numeral_of_scanFrom`),
     and what is read from a numeral is what it denotes (`denotes_of_number?`).  A row of digits
     that denotes no integer of 64 bits is not read at all (`integer?_eq`).

  4. **Derivations** — a condition holds the numbers of its tokens, each one, in their order
     (`tallies_operand`).  Signs, words and strings count for nothing, so the rows of the grammar
     are counted piece by piece.
-/
import Verdict.FieldTest
import Verdict.Proofs.Condition.Places
import Verdict.Proofs.Condition.Soundness
import Verdict.Proofs.Condition.Spelling
import Verdict.Proofs.Decimal.ReadBack

namespace Verdict

/-- The literal of a test, if it is a number. -/
def FieldTest.number? : FieldTest → Option Scalar
  | truthy _ => none
  | compare _ _ literal => if literal.isNumeric then some literal else none

namespace Condition

open Decimal

/-! ## Numerals -/

/-- A row of characters behind a minus sign, or without one. -/
def signed (negative : Bool) (row : List Char) : String :=
  String.ofList ((if negative then ['-'] else []) ++ row)

/-- What a number token may look like: digits, and possibly a fraction. -/
inductive Numeral : String → Prop
  | whole {negative : Bool} {digits : List Char} (row : ∀ c ∈ digits, isDigit c = true) :
      Numeral (signed negative digits)
  | decimal {negative : Bool} {whole fraction : List Char} (row : ∀ c ∈ whole, isDigit c = true)
      (fractionRow : IsDigits fraction) : Numeral (signed negative (whole ++ '.' :: fraction))

/-- The integer that a row of digits denotes behind its sign. -/
def signedValue (negative : Bool) (digits : List Char) : Int :=
  if negative then -(digitsValue digits : Int) else digitsValue digits

/-- A numeral and the number that it denotes: an integer EXACTLY, a decimal as the nearest float. -/
inductive Denotes : String → Scalar → Prop
  | integer {negative : Bool} {digits : List Char} {n : Int64} (row : IsDigits digits)
      (value : n.toInt = signedValue negative digits) :
      Denotes (signed negative digits) (.int n)
  | decimal {negative : Bool} {whole fraction : List Char} (row : ∀ c ∈ whole, isDigit c = true)
      (fractionRow : IsDigits fraction) :
      Denotes (signed negative (whole ++ '.' :: fraction))
        (.float (ofDigits negative whole fraction))

/-- A row that is no sign itself is found behind its sign. -/
theorem withoutSign_row (negative : Bool) {row : List Char} (h : ∀ c ∈ row.head?, c ≠ '-') :
    withoutSign (signed negative row).toList = (negative, row) := by
  unfold signed
  rw [String.toList_ofList]
  cases negative with
  | true => rfl
  | false =>
      show withoutSign row = _
      unfold withoutSign
      split
      · exact absurd rfl (h '-' rfl)
      · rfl

theorem head?_ne_minus {digits : List Char} (h : ∀ c ∈ digits, isDigit c = true) :
    ∀ c ∈ digits.head?, c ≠ '-' :=
  fun c hc => ne_minus_of_isDigit (h c (List.mem_of_mem_head? hc))

theorem head?_ne_minus_decimal {whole : List Char} (h : ∀ c ∈ whole, isDigit c = true)
    (fraction : List Char) : ∀ c ∈ (whole ++ '.' :: fraction).head?, c ≠ '-' := by
  intro c hc
  cases whole with
  | nil =>
      obtain rfl : '.' = c := Option.some.inj hc
      decide
  | cons d ds =>
      obtain rfl : d = c := Option.some.inj hc
      exact ne_minus_of_isDigit (h d (List.mem_cons_self ..))

/-- Is the integer one of 64 bits? -/
def FitsInt64 (n : Int) : Prop := Int64.minValue.toInt ≤ n ∧ n ≤ Int64.maxValue.toInt

/-- Digits are read as the integer that they denote, or they denote none of 64 bits and are not
    read.  There is no third case: the reader computes exactly what they denote. -/
theorem integer?_eq (negative : Bool) {digits : List Char} (h : digits ≠ []) :
    (∃ n, integer? negative digits = some n ∧ n.toInt = signedValue negative digits)
      ∨ integer? negative digits = none ∧ ¬ FitsInt64 (signedValue negative digits) := by
  have hsome : ¬ digits.isEmpty = true := by
    rw [List.isEmpty_iff]
    exact h
  unfold integer?
  dsimp only
  rw [if_neg hsome]
  by_cases hfits : FitsInt64 (signedValue negative digits)
  · refine Or.inl ⟨_, if_pos hfits, ?_⟩
    exact Int64.toInt_ofInt_of_le hfits.1 (Int.lt_of_le_of_lt hfits.2 (by decide))
  · exact Or.inr ⟨if_neg hfits, hfits⟩

/-- A number without a point is an integer. -/
theorem number?_whole (negative : Bool) {digits : List Char} (h : ∀ c ∈ digits, isDigit c = true) :
    number? (signed negative digits) = (integer? negative digits).map .int := by
  have hno : digits.dropWhile (· ≠ '.') = [] := by
    rw [List.dropWhile_eq_nil_iff]
    intro c hc
    exact decide_eq_true (ne_point_of_isDigit (h c hc))
  unfold number?
  rw [withoutSign_row negative (head?_ne_minus h)]
  dsimp only
  rw [hno]

/-- A number with a point is a float. -/
theorem number?_decimal (negative : Bool) {whole : List Char} (h : ∀ c ∈ whole, isDigit c = true)
    (fraction : List Char) :
    number? (signed negative (whole ++ '.' :: fraction))
      = some (.float (ofDigits negative whole fraction)) := by
  unfold number?
  rw [withoutSign_row negative (head?_ne_minus_decimal h fraction)]
  dsimp only
  rw [dropWhile_digits h, takeWhile_digits h]

/-- **What is read from a numeral is what it denotes.**  A numeral without a point is read as an
    integer or not at all, one with a point always as a float. -/
theorem denotes_of_number? {raw : String} {s : Scalar} (hraw : Numeral raw)
    (h : number? raw = some s) : Denotes raw s := by
  cases hraw with
  | @whole negative digits row =>
      rw [number?_whole negative row] at h
      obtain ⟨n, hn, rfl⟩ := Option.map_eq_some_iff.mp h
      have hne : digits ≠ [] := by
        rintro rfl
        cases hn
      rcases integer?_eq negative hne with ⟨m, hm, hvalue⟩ | ⟨hnone, -⟩
      · obtain rfl := Option.some.inj (hm.symm.trans hn)
        exact .integer ⟨hne, row⟩ hvalue
      · cases hnone.symm.trans hn
  | @decimal negative whole fraction row fractionRow =>
      rw [number?_decimal negative row] at h
      cases h
      exact .decimal row fractionRow

/-! ## Writing -/

/-- An integer is written as its digits, behind a minus sign if it is negative. -/
theorem ofList_integer (n : Int) :
    String.ofList (integer n) = signed (decide (n < 0)) (natural n.natAbs) := by
  unfold integer signed
  by_cases hneg : n < 0
  · rw [if_pos hneg, if_pos (decide_eq_true hneg)]
    rfl
  · rw [if_neg hneg, if_neg (by rwa [decide_eq_true_eq])]
    rfl

/-- The digits that are written denote the integer. -/
theorem signedValue_natural (n : Int) :
    signedValue (decide (n < 0)) (natural n.natAbs) = n := by
  unfold signedValue
  rw [digitsValue_natural]
  by_cases hneg : n < 0
  · rw [if_pos (decide_eq_true hneg)]
    omega
  · rw [if_neg (by rwa [decide_eq_true_eq])]
    omega

/-- **A written integer is read back.** -/
theorem number?_integer (n : Int64) :
    number? (String.ofList (integer n.toInt)) = some (.int n) := by
  obtain ⟨hne, hdigits⟩ := isDigits_natural n.toInt.natAbs
  have hvalue := signedValue_natural n.toInt
  rw [ofList_integer, number?_whole _ hdigits]
  rcases integer?_eq (decide (n.toInt < 0)) hne with ⟨m, hm, hread⟩ | ⟨-, hnot⟩
  · obtain rfl : m = n := Int64.toInt_inj.mp (hread.trans hvalue)
    rw [hm, Option.map_some]
  · -- An integer of 64 bits is in their range.
    rw [hvalue] at hnot
    exact absurd ⟨n.minValue_le_toInt, n.toInt_le⟩ hnot

/-- **A written float is read back.** -/
theorem number?_float {x : Float} (h : isFinite x = true) :
    number? (Decimal.text x) = some (.float x) := by
  obtain ⟨whole, fraction, htext, hwhole, _, hvalue⟩ := text_spec h
  have hsigned : Decimal.text x = signed (isNegative x) (whole ++ '.' :: fraction) := htext
  rw [hsigned, number?_decimal _ hwhole.2, hvalue]

/-! ## Scanning -/

/-- What a reader of strings reads is a string. -/
theorem readString_token {quote : Char} {opened position : Nat} {done cs : List Char}
    {l : Lexeme} (h : readString quote opened position done cs = .ok l) :
    ∃ s, l.token = .string s := by
  fun_induction readString quote opened position done cs with
  | case1 => cases h
  | case2 => cases h; exact ⟨_, rfl⟩
  | case3 => cases h
  | case4 _ _ _ _ _ _ _ ih => exact ih h
  | case5 => cases h
  | case6 _ _ _ _ _ _ ih => exact ih h

theorem ofWord_ne_number (word raw : String) : Token.ofWord word ≠ .number raw := by
  unfold Token.ofWord
  split <;> nofun

/-- What a reader of numbers reads is a numeral: it takes digits, and goes on behind a point only if
    a digit follows. -/
theorem numeral_of_readNumber {c : Char} (hc : c = '-' ∨ isDigit c = true) (cs : List Char)
    {raw : String} (h : (readNumber c cs).token = .number raw) : Numeral raw := by
  -- The first character is the sign, or the first digit.
  have hrow : ∃ negative digits, (∀ d ∈ digits, isDigit d = true)
      ∧ ∀ rest, String.ofList (c :: (cs.takeWhile isDigit ++ rest))
        = signed negative (digits ++ rest) := by
    have htake : ∀ d ∈ cs.takeWhile isDigit, isDigit d = true :=
      fun d hd => List.mem_takeWhile_imp hd
    rcases hc with rfl | hdigit
    · exact ⟨true, cs.takeWhile isDigit, htake, fun rest => rfl⟩
    · exact ⟨false, c :: cs.takeWhile isDigit, List.forall_mem_cons.mpr ⟨hdigit, htake⟩,
        fun rest => rfl⟩
  obtain ⟨negative, digits, hdigits, htext⟩ := hrow
  have hwhole : Numeral (String.ofList (c :: cs.takeWhile isDigit)) := by
    have htext := htext []
    rw [List.append_nil, List.append_nil] at htext
    rw [htext]
    exact .whole hdigits
  unfold readNumber at h
  dsimp only at h
  split at h
  · rename_i d rest hrest
    split at h
    · rename_i hd
      cases h
      rw [List.cons_append, htext]
      refine .decimal hdigits ⟨List.cons_ne_nil _ _, List.forall_mem_cons.mpr ⟨hd, ?_⟩⟩
      exact fun e he => List.mem_takeWhile_imp he
    · cases h
      exact hwhole
  · cases h
    exact hwhole

/-- A number that is a lexeme is a numeral: neither a sign nor a string nor a word is a number. -/
theorem numeral_of_lexeme {position : Nat} {c : Char} {cs : List Char} {l : Lexeme}
    (h : lexeme position c cs = .ok l) {raw : String} (hraw : l.token = .number raw) :
    Numeral raw := by
  rcases lexeme_cases h with ⟨_, -, hsign⟩ | ⟨-, hstring⟩ | ⟨hc, rfl⟩ | ⟨-, rfl⟩
  · exact absurd hraw (hsign.ne_number raw)
  · obtain ⟨s, hs⟩ := readString_token hstring
    cases hs.symm.trans hraw
  · exact numeral_of_readNumber hc _ hraw
  · exact absurd hraw (ofWord_ne_number _ _)

/-- **Every number among the tokens of a text** is a numeral. -/
theorem numeral_of_scanFrom {position : Nat} {done placed : List Placed} {cs : List Char}
    (h : scanFrom position done cs = .ok placed)
    (hdone : ∀ p ∈ done, ∀ raw, p.token = .number raw → Numeral raw) :
    ∀ p ∈ placed, ∀ raw, p.token = .number raw → Numeral raw :=
  forall_of_scanFrom (P := fun t => ∀ raw, t = .number raw → Numeral raw)
    (fun hl _ hraw => numeral_of_lexeme hl hraw) h hdone

/-! ## Numbers along a derivation -/

/-- The text of a number token. -/
def Token.numeral? : Token → Option String
  | .number raw => some raw
  | _ => none

/-- The texts of the number tokens of a row. -/
def numerals (ts : List Token) : List String := ts.filterMap Token.numeral?

/-- The numbers among the literals of a condition, from left to right. -/
def numbers (c : FieldCondition) : List Scalar := c.leaves.filterMap FieldTest.number?

/-- The numerals of some tokens read as the given numbers, one by one. -/
def Tally (ts : List Token) (numbers : List Scalar) : Prop :=
  List.Forall₂ (fun raw s => number? raw = some s) (numerals ts) numbers

theorem Tally.append {ts us : List Token} {xs ys : List Scalar} (h : Tally ts xs)
    (h' : Tally us ys) : Tally (ts ++ us) (xs ++ ys) := by
  unfold Tally numerals at *
  rw [List.filterMap_append]
  exact List.rel_append h h'

/-- A sign counts for nothing. -/
theorem Tally.cons {t : Token} (ht : t.numeral? = none) {ts : List Token} {xs : List Scalar}
    (h : Tally ts xs) : Tally (t :: ts) xs := by
  unfold Tally numerals at *
  rw [List.filterMap_cons_none ht]
  exact h

/-- What is derived holds the numbers of the tokens. -/
def Tallies (P : List Token → FieldCondition → Prop) : Prop :=
  ∀ ts c, P ts c → Tally ts (numbers c)

/-- A row tallies if its entries do: the signs between them count for nothing. -/
theorem tally_separated {β : Type} {P : List Token → β → Prop} {f : β → List Scalar}
    (hP : ∀ ts b, P ts b → Tally ts (f b)) {sign : Token} (hsign : sign.numeral? = none)
    {ts : List Token} {bs : List β} (h : Separated sign P ts bs) : Tally ts (bs.flatMap f) := by
  induction h with
  | one only =>
      rw [List.flatMap_singleton]
      exact hP _ _ only
  | more first _ ih =>
      rw [List.flatMap_cons]
      exact (hP _ _ first).append (ih.cons hsign)

theorem numbers_node (op : Operator) (cs : List FieldCondition) :
    numbers (op.node cs) = cs.flatMap numbers := by
  unfold numbers
  rw [leaves_node, List.filterMap_flatMap]

theorem numbers_joined (op : Operator) (cs : List FieldCondition) :
    numbers (joined op.node cs) = cs.flatMap numbers := by
  unfold numbers
  rw [op.leaves_joined, List.filterMap_flatMap]

theorem Tallies.chain {P : List Token → FieldCondition → Prop} (hP : Tallies P) (op : Operator) :
    Tallies (Chain op.sign op.node P) := by
  rintro ts c ⟨cs, hrow, rfl⟩
  rw [numbers_joined]
  exact tally_separated hP (by cases op <;> rfl) hrow

theorem Tallies.expression {P : List Token → FieldCondition → Prop} (hP : Tallies P) :
    Tallies (Expression P) :=
  (hP.chain .and).chain .or

theorem tally_pathOf {ts : List Token} {names : List String} (h : PathOf ts names) :
    Tally ts [] := by
  have hname : ∀ (us : List Token) (name : String), us = [.name name] → Tally us [] := by
    rintro us name rfl
    exact .nil
  have hnone : names.flatMap (fun _ => ([] : List Scalar)) = [] :=
    List.flatMap_eq_nil_iff.mpr fun _ _ => rfl
  rw [← hnone]
  exact tally_separated hname rfl h

theorem isNumeric_of_number? {raw : String} {s : Scalar} (h : number? raw = some s) :
    s.isNumeric = true := by
  unfold number? at h
  dsimp only at h
  split at h
  · obtain ⟨n, _, rfl⟩ := Option.map_eq_some_iff.mp h
    rfl
  · cases h
    rfl

/-- The number of a comparison is that of its literal. -/
theorem tallies_atomOf : Tallies (AtomOf FieldTest.resolver) := by
  intro ts c h
  cases h with
  | @field _ names test path known =>
      obtain ⟨p, _, rfl⟩ := Option.map_eq_some_iff.mp known
      exact tally_pathOf path
  | @comparison us names comparator t s test path literal known =>
      obtain ⟨p, _, rfl⟩ := Option.map_eq_some_iff.mp known
      have hliteral : Tally [t] (numbers (.leaf (.compare p comparator s))) := by
        cases literal with
        | trueWord => exact .nil
        | falseWord => exact .nil
        | string => exact .nil
        | @number raw _ denotes =>
            have hone : (FieldTest.compare p comparator s).number? = some s :=
              if_pos (isNumeric_of_number? denotes)
            have hnumber : numbers (.leaf (.compare p comparator s)) = [s] :=
              List.filterMap_cons_some hone
            rw [hnumber]
            exact List.Forall₂.cons denotes .nil
      exact (tally_pathOf path).append (Tally.cons rfl hliteral)

/-- An operand tallies if those inside it do.  One case for each rule of the grammar; all of them
    add signs only. -/
theorem tallies_operandOf {P? : Option (List Token → FieldCondition → Prop)}
    (hP : ∀ P, P? = some P → Tallies P) : Tallies (OperandOf FieldTest.resolver P?) := by
  intro ts c h
  cases h with
  | trueWord => exact .nil
  | falseWord => exact .nil
  | atom h => exact tallies_atomOf ts c h
  | negation level h => exact (hP _ level _ _ h).cons rfl
  | @group P us _ level h =>
      -- The parenthesis behind counts for nothing either.
      have hinside := (hP _ level).expression us c h
      have hclosed : Tally (us ++ [.closing]) (numbers c ++ []) := hinside.append .nil
      rw [List.append_nil] at hclosed
      exact hclosed.cons rfl
  | @call P us cs name node level function h =>
      have hinside : Tally us (cs.flatMap numbers) := by
        cases h with
        | none => exact .nil
        | some row => exact tally_separated (hP _ level).expression rfl row
      obtain ⟨op, rfl⟩ := exists_operator_of_function? function
      have hclosed : Tally (us ++ [.closing]) (cs.flatMap numbers ++ []) := hinside.append .nil
      rw [List.append_nil] at hclosed
      rw [numbers_node]
      exact (hclosed.cons rfl).cons rfl

/-- **Operands** hold the numbers of their tokens, with any number of levels.  By induction on it.
    -/
theorem tallies_operand (levels : Nat) : Tallies (Operand FieldTest.resolver levels) := by
  induction levels with
  | zero =>
      refine tallies_operandOf fun P h => ?_
      cases h
  | succ levels ih =>
      refine tallies_operandOf fun P h => ?_
      cases h
      exact ih

end Condition

end Verdict
