/-
  Widened input — a table asked about a record, and about the same record with floats where floats
  are declared.

  1. **Specification** — an integer may stand under a float declaration.  Widening the record first
     should not matter, and it does not, unless a test is BLURRED: it compares an integer field with
     an integer literal, the two are different, and both widen to ONE float.  Integers compare
     exactly, so such a test tells them apart; once the field is widened it does not.

  2. **Tests** — every other test says the same of both records (`FieldTest.holds_widenTo`), because
     widened integers keep their order.  Results never differ: a linear one widens its operand
     anyway.

  3. **Theorem** — `evaluate_widened`: the first rule and its value are the same, or there is a
     blurred test, and the two integers of a blurred test are at least `2⁵³`.
-/
import Verdict.Proofs.Decimal.Order
import Verdict.Proofs.Table.FirstMatch

namespace Verdict

open Decimal (exactLimit natAbs_toInt_le ofInt)

/-! ## Scalars -/

theorem Scalar.toFloat?_widenTo (t : ScalarType) (s : Scalar) :
    (s.widenTo t).toFloat? = s.toFloat? := by
  cases s with
  | int n => by_cases h : t = .float <;> simp [widenTo, h, toFloat?]
  | _ => rfl

/-- Against a literal a scalar stands as it does after widening, or it is an integer that has become
    one float with the literal.  Only an integer under a float declaration is changed at all, and
    only against an integer is it compared otherwise than before: against a float it was widened
    anyway. -/
theorem Scalar.compares_widenTo (c : Comparator) (t : ScalarType) (s literal : Scalar) :
    (s.widenTo t).compares c literal = s.compares c literal
      ∨ ∃ n m, s = .int n ∧ literal = .int m ∧ t = .float ∧ n ≠ m
          ∧ ofInt n.toInt = ofInt m.toInt := by
  cases s with
  | int n =>
      by_cases ht : t = .float
      · subst ht
        cases literal with
        | int m =>
            -- The floats stand as the integers do, or they have become one.
            rcases Decimal.floatOrder_ofInt (natAbs_toInt_le n) (natAbs_toInt_le m) with
              hsame | ⟨hne, hone, -, -⟩
            · refine Or.inl ?_
              show c.holds (floatOrder (ofInt n.toInt) (ofInt m.toInt)) = _
              rw [hsame]
              rfl
            · refine Or.inr ⟨n, m, rfl, rfl, rfl, ?_, hone⟩
              rintro rfl
              exact hne rfl
        | _ => exact Or.inl rfl
      · exact Or.inl (by rw [widenTo, if_neg ht])
  | _ => exact Or.inl rfl

/-! ## Tests -/

/-- The test compares an integer field of a record with another integer, and under the declaration
    of the field the two are one float. -/
inductive FieldTest.Blurred (shape : Shape) (r : Record) : FieldTest → Prop
  | intro {p : FieldPath} {c : Comparator} {n m : Int64}
      (declared : shape.lookup p = some .float)
      (found : r.lookup p = some (.scalar (.int n)))
      (different : n ≠ m)
      (one : ofInt n.toInt = ofInt m.toInt) : Blurred shape r (.compare p c (.int m))

/-- What a record holds at a declared path is widened as the declaration there says. -/
theorem Record.lookup_widenTo {shape : Shape} {p : FieldPath} {t : ValueType}
    (h : shape.lookup p = some t) (r : Record) :
    (r.widenTo shape).lookup p = (r.lookup p).map (·.widenTo t) := by
  have hpath : (ValueType.record shape).at? p.names = some t := h
  have hread := Value.at?_widenTo hpath (.record r)
  rw [Value.widenTo] at hread
  exact hread

theorem Value.toFloat?_widenTo (t : ValueType) (v : Value) :
    (v.widenTo t).toFloat? = v.toFloat? := by
  cases v with
  | scalar s =>
      cases t with
      | scalar t => exact s.toFloat?_widenTo t
      | record shape => rfl
  | record r => cases t <;> rfl

namespace FieldTest

variable {shape : Shape} {r : Record}

/-- A test that is not blurred says the same of the widened record.  What the record holds at the
    path is widened by the type declared there, so the cases are those of the value and the type;
    all but the comparison of a scalar are the same function before and after. -/
theorem holds_widenTo {test : FieldTest} {t : ValueType} (ht : shape.lookup test.path = some t)
    (h : ¬ test.Blurred shape r) :
    test.holds (r.widenTo shape).lookup = test.holds r.lookup := by
  unfold holds
  rw [Record.lookup_widenTo ht]
  cases hv : r.lookup test.path with
  | none => rfl
  | some v =>
      show test.holdsOf (some (v.widenTo t)) = _
      cases v with
      | record q => cases t <;> cases test <;> rfl
      | scalar s =>
          cases t with
          | record _ => rfl
          | scalar t =>
              cases test with
              | truthy p => cases s <;> cases t <;> rfl
              | compare p c literal =>
                  rcases Scalar.compares_widenTo c t s literal with
                    hsame | ⟨n, m, rfl, rfl, rfl, hne, hone⟩
                  · exact hsame
                  · -- Two integers, one float: the test would be blurred.
                    exact absurd (.intro ht hv hne hone) h

/-- A blurred test compares an integer of the record with an integer. -/
theorem Blurred.integers {test : FieldTest} (h : test.Blurred shape r) :
    ∃ p c n m, test = .compare p c (.int m) ∧ r.lookup p = some (.scalar (.int n)) := by
  cases h with
  | @intro p c n m _ found _ _ => exact ⟨p, c, n, m, rfl, found⟩

/-- A blurred test, opened for the integer that the record holds. -/
theorem Blurred.elim {p : FieldPath} {c : Comparator} {n m : Int64}
    (h : (compare p c (.int m)).Blurred shape r) (hn : r.lookup p = some (.scalar (.int n))) :
    shape.lookup p = some .float ∧ n ≠ m ∧ ofInt n.toInt = ofInt m.toInt := by
  cases h with
  | @intro _ _ k _ declared found different one =>
      obtain rfl : k = n := by
        rw [found] at hn
        cases hn
        rfl
      exact ⟨declared, different, one⟩

/-- The two integers of a blurred test are large. -/
theorem Blurred.large {p : FieldPath} {c : Comparator} {n m : Int64}
    (h : (compare p c (.int m)).Blurred shape r) (hn : r.lookup p = some (.scalar (.int n))) :
    exactLimit ≤ n.toInt.natAbs ∧ exactLimit ≤ m.toInt.natAbs := by
  obtain ⟨-, different, one⟩ := h.elim hn
  have hne : n.toInt ≠ m.toInt := fun heq => different (Int64.toInt_inj.mp heq)
  rcases Decimal.floatOrder_ofInt (natAbs_toInt_le n) (natAbs_toInt_le m) with
    hsame | ⟨-, -, hlarge⟩
  · -- One float is equal to itself, so the integers would be equal.
    rw [one, Decimal.floatOrder_ofInt_self (natAbs_toInt_le m), Option.some.injEq] at hsame
    exact absurd (compare_eq_iff_eq.mp hsame.symm) hne
  · exact hlarge

/-- A blurred test compares the integers of the record exactly, and sees equal floats in the widened
    record. -/
theorem Blurred.holds_eq {p : FieldPath} {c : Comparator} {n m : Int64}
    (h : (compare p c (.int m)).Blurred shape r) (hn : r.lookup p = some (.scalar (.int n))) :
    (compare p c (.int m)).holds r.lookup = c.holdsOf (Ord.compare n.toInt m.toInt)
      ∧ (compare p c (.int m)).holds (r.widenTo shape).lookup = c.holdsOf .eq := by
  obtain ⟨declared, -, one⟩ := h.elim hn
  constructor
  · show holdsOf _ (r.lookup p) = _
    rw [hn]
    rfl
  · show holdsOf _ ((r.widenTo shape).lookup p) = _
    rw [Record.lookup_widenTo declared, hn]
    show c.holds (Scalar.floatOrder (ofInt n.toInt) (ofInt m.toInt)) = _
    rw [one, Decimal.floatOrder_ofInt_self (natAbs_toInt_le m)]
    rfl

end FieldTest

/-! ## Tables -/

namespace Table

/-- Some test of a rule is blurred for the record. -/
def Blurred (t : Table) (r : Record) : Prop :=
  ∃ rule ∈ t.rules, ∃ test ∈ rule.condition.leaves, test.Blurred t.input r

/-- The two records are answered alike: by one rule with one value, or not at all. -/
def AnsweredAlike (t : Table) (r r' : Record) : Prop :=
  (∃ a, t.evaluate r = .ok a ∧ t.evaluate r' = .ok a)
    ∨ t.evaluate r = .error (.noRuleMatched t.id r)
      ∧ t.evaluate r' = .error (.noRuleMatched t.id r')

variable {t : Table} {limits : Limits} {r : Record}

/-- A linear result looks at a declared field. -/
theorem declared_of_resultDefect? {field : FieldPath} {coefficient offset : Float}
    (h : t.resultDefect? (.linear field coefficient offset) = none) :
    ∃ type, t.input.lookup field = some type := by
  cases hd : t.input.lookup field with
  | some type => exact ⟨type, rfl⟩
  | none =>
      simp only [resultDefect?, hd] at h
      split at h
      · cases h
      · split at h <;> cases h

/-- A linear result widens its operand itself, and a literal one has none. -/
theorem resultOf_widenTo (admitted : t.check limits = .ok ()) {rule : Rule}
    (hrule : rule ∈ t.rules) :
    t.resultOf rule (r.widenTo t.input) = t.resultOf rule r := by
  obtain ⟨_, _, _, _, _, hrules⟩ := check_eq_ok_iff.mp admitted
  have hdefect := (checkRule_eq_ok_iff.mp (hrules rule hrule)).2.2
  unfold resultOf
  cases hresult : rule.result with
  | literal v => rfl
  | linear field coefficient offset =>
      rw [hresult] at hdefect
      obtain ⟨type, htype⟩ := declared_of_resultDefect? hdefect
      have hoperand : ((r.widenTo t.input).lookup field).bind Value.toFloat?
          = (r.lookup field).bind Value.toFloat? := by
        rw [Record.lookup_widenTo htype]
        cases r.lookup field with
        | none => rfl
        | some v => exact v.toFloat?_widenTo type
      dsimp only
      rw [hoperand]

/-- Without a blurred test every rule has the condition that it had. -/
theorem isMet_widenTo (admitted : t.check limits = .ok ()) (h : ¬ t.Blurred r) {rule : Rule}
    (hrule : rule ∈ t.rules) : rule.isMet (r.widenTo t.input) = rule.isMet r := by
  obtain ⟨_, _, _, _, _, hrules⟩ := check_eq_ok_iff.mp admitted
  have htests := (checkRule_eq_ok_iff.mp (hrules rule hrule)).2.1
  refine Condition.eager_congr fun test htest => ?_
  obtain ⟨type, htype, _⟩ := FieldCondition.typed_of_checkTests htests htest
  exact FieldTest.holds_widenTo htype fun hblurred => h ⟨rule, hrule, test, htest, hblurred⟩

/-- What widening does to a record that a table is asked about. -/
structure AnswersWidened (t : Table) (r : Record) : Prop where
  /-- The input type makes the widened record of it. -/
  coerced : (ValueType.record t.input).coerce (.record r) = .record (r.widenTo t.input)
  /-- The widened record is accepted. -/
  accepted : t.input.check (r.widenTo t.input) = .ok ()
  /-- No integer stands under a float declaration in it. -/
  widened : (Value.record (r.widenTo t.input)).Widened (.record t.input)
  /-- The two are answered alike, unless a test is blurred. -/
  alike : ¬ t.Blurred r → t.AnsweredAlike r (r.widenTo t.input)
  /-- They are answered alike if the integers in the conditions are small. -/
  small : (∀ rule ∈ t.rules, ∀ p c (m : Int64),
      .compare p c (.int m) ∈ rule.condition.leaves → m.toInt.natAbs < exactLimit) →
    t.AnsweredAlike r (r.widenTo t.input)
  /-- A blurred test compares two large integers exactly, and sees equal floats after widening. -/
  blurred : ∀ p c (n m : Int64), (FieldTest.compare p c (.int m)).Blurred t.input r →
    r.lookup p = some (.scalar (.int n)) →
      exactLimit ≤ n.toInt.natAbs ∧ exactLimit ≤ m.toInt.natAbs
        ∧ (FieldTest.compare p c (.int m)).holds r.lookup = c.holdsOf (compare n.toInt m.toInt)
        ∧ (FieldTest.compare p c (.int m)).holds (r.widenTo t.input).lookup = c.holdsOf .eq

/-- A widened record is accepted where the record is. -/
theorem check_widenTo (admitted : t.check limits = .ok ()) (hin : t.input.check r = .ok ()) :
    t.input.check (r.widenTo t.input) = .ok () := by
  obtain ⟨_, _, hshape, _, _, _⟩ := check_eq_ok_iff.mp admitted
  have hdefect : (ValueType.record t.input).defect? = none := hshape
  have hconf := (Shape.check_eq_ok_iff.mp hin).widenTo (.of_defect? hdefect)
  rw [Value.widenTo] at hconf
  exact Shape.check_eq_ok_iff.mpr hconf

/-- A rule that is the first one stays it. -/
theorem IsFirst.widenTo {i : Nat} {rule : Rule} (h : t.IsFirst r i rule)
    (admitted : t.check limits = .ok ()) (hclear : ¬ t.Blurred r) :
    t.IsFirst (r.widenTo t.input) i rule where
  found := h.found
  met := by
    rw [isMet_widenTo admitted hclear (List.mem_of_getElem? h.found)]
    exact h.met
  least j earlier hj hearlier := by
    rw [isMet_widenTo admitted hclear (List.mem_of_getElem? hearlier)]
    exact h.least j earlier hj hearlier

/-- Without a blurred test the first rule stays the first and its value stays the same; and where no
    rule is true of the record, none is true of the widened one. -/
theorem answeredAlike_widenTo (admitted : t.check limits = .ok ()) (hin : t.input.check r = .ok ())
    (hclear : ¬ t.Blurred r) : t.AnsweredAlike r (r.widenTo t.input) := by
  have hin' := check_widenTo admitted hin
  rcases t.isFirst_or_none r with ⟨i, rule, hfirst⟩ | hnone
  · have hrule := List.mem_of_getElem? hfirst.found
    obtain ⟨v, heval, hv, -⟩ := hfirst.answer admitted hin
    refine Or.inl ⟨_, heval, ?_⟩
    rw [(hfirst.widenTo admitted hclear).evaluate_eq hin', resultOf_widenTo admitted hrule, hv]
    rfl
  · have hnone' : ∀ rule ∈ t.rules, rule.isMet (r.widenTo t.input) = false := by
      intro rule hrule
      rw [isMet_widenTo admitted hclear hrule]
      exact hnone rule hrule
    exact Or.inr ⟨evaluate_of_none hin hnone, evaluate_of_none hin' hnone'⟩

/-- **Widened input.**  An admitted table answers a record as it answers the widened one, unless a
    test is blurred; and a blurred test takes two integers of at least `2⁵³`, so small literals
    exclude it. -/
theorem evaluate_widened (admitted : t.check limits = .ok ()) (hin : t.input.check r = .ok ()) :
    t.AnswersWidened r where
  coerced := by rw [ValueType.coerce, Value.widenTo]
  accepted := check_widenTo admitted hin
  widened := by
    have hwidened := Value.widened_widenTo (.record t.input) (.record r)
    rw [Value.widenTo] at hwidened
    exact hwidened
  alike := answeredAlike_widenTo admitted hin
  small hsmall := by
    -- A blurred test would have a large literal, and the literals are small.
    refine answeredAlike_widenTo admitted hin ?_
    rintro ⟨rule, hrule, test, htest, hblurred⟩
    obtain ⟨p, c, n, m, rfl, hn⟩ := hblurred.integers
    have hlarge := (hblurred.large hn).2
    have hsmall := hsmall rule hrule p c m htest
    omega
  blurred p c n m h hn := by
    obtain ⟨hrecord, hwidened⟩ := h.holds_eq hn
    obtain ⟨hlarge, hlarge'⟩ := h.large hn
    exact ⟨hlarge, hlarge', hrecord, hwidened⟩

/-! ## A table that tells an integer from its float -/

/-- The record of one mass. -/
def measured (n : Int64) : Record := .cons "mass" (.scalar (.int n)) .nil

/-- The first rule wants one mass exactly. -/
def exactTable (m : Int64) : Table where
  id := "exact"
  input := .cons "mass" .float .nil
  output := .str
  rules :=
    [ { id := "equal"
        condition := .leaf (.compare (.field "mass") .equals (.int m))
        result := .literal (.scalar (.str "hit")) },
      { id := "other"
        condition := .constant true
        result := .literal (.scalar (.str "miss")) } ]

/-- A small mass is answered alike, widened or not. -/
theorem evaluate_widened_small :
    (exactTable 12).check .default = .ok () ∧ (exactTable 12).input.check (measured 12) = .ok ()
      ∧ (exactTable 12).AnsweredAlike (measured 12)
        ((measured 12).widenTo (exactTable 12).input) := by
  have hanswers := @evaluate_widened (exactTable 12) .default (measured 12) rfl rfl
  refine ⟨rfl, rfl, hanswers.small fun rule hrule p c m htest => ?_⟩
  rcases List.mem_pair.mp hrule with rfl | rfl
  · cases List.mem_singleton.mp htest
    decide
  · cases htest

/-- Another integer than the one that is wanted is a miss. -/
theorem evaluate_exactTable {n m : Int64} (h : n ≠ m) :
    (exactTable m).evaluate (measured n) = .ok ⟨1, "other", .scalar (.str "miss")⟩ := by
  have hmiss : Comparator.equals.holdsOf (compare n.toInt m.toInt) = false := by
    show (compare n.toInt m.toInt).isEq = false
    rw [← Bool.not_eq_true, Ordering.isEq_iff_eq_eq, compare_eq_iff_eq]
    exact fun heq => h (Int64.toInt_inj.mp heq)
  show (if Comparator.equals.holdsOf (compare n.toInt m.toInt) = true then _ else _) = _
  rw [hmiss]
  rfl

/-- Once the mass is widened, an integer with the same float is a hit. -/
theorem evaluate_exactTable_widened {n m : Int64} (h : ofInt n.toInt = ofInt m.toInt) :
    (exactTable m).evaluate ((measured n).widenTo (exactTable m).input)
      = .ok ⟨0, "equal", .scalar (.str "hit")⟩ := by
  have hhit : Comparator.equals.holds (Scalar.floatOrder (ofInt n.toInt) (ofInt m.toInt))
      = true := by
    rw [h, Decimal.floatOrder_ofInt_self (natAbs_toInt_le m)]
    rfl
  show (if Comparator.equals.holds (Scalar.floatOrder (ofInt n.toInt) (ofInt m.toInt)) = true
    then _ else _) = _
  rw [hhit]
  rfl

/-- The two smallest integers that widen to one float. -/
theorem ofInt_eq_exactLimit : ofInt 9007199254740993 = ofInt 9007199254740992 := by
  have hnearest : Decimal.nearest 9007199254740993 1 = Decimal.nearest 9007199254740992 1 := by
    decide +kernel
  exact congrArg (Decimal.toFloat false) hnearest

/-- **Widening matters.**  The integer after `2⁵³` is no hit, and the float it widens to is one: the
    table says "other" of the record and "equal" of the widened one. -/
theorem evaluate_not_alike :
    (exactTable 9007199254740992).check .default = .ok ()
      ∧ (exactTable 9007199254740992).input.check (measured 9007199254740993) = .ok ()
      ∧ ¬ (exactTable 9007199254740992).AnsweredAlike (measured 9007199254740993)
        ((measured 9007199254740993).widenTo (exactTable 9007199254740992).input) := by
  refine ⟨rfl, rfl, ?_⟩
  have hmiss := @evaluate_exactTable 9007199254740993 9007199254740992 (by decide)
  have hhit := @evaluate_exactTable_widened 9007199254740993 9007199254740992 ofInt_eq_exactLimit
  rintro (⟨a, ha, ha'⟩ | ⟨hnone, -⟩)
  · have hmiss := Except.ok.inj (hmiss.symm.trans ha)
    have hhit := Except.ok.inj (hhit.symm.trans ha')
    exact absurd (congrArg Answer.ruleIndex (hmiss.trans hhit.symm)) (by decide)
  · cases hmiss.symm.trans hnone

end Table

end Verdict
