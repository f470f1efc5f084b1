/-
  Tests that decide — where its types are declared, a test is judged on a value and never fails
  closed.

  1. **Comparators** — `Comparator.Judges` is what six comparators should say of two operands:
     `!=` denies `==`; numbers stand in exactly ONE of three orders, and `>=` and `<=` deny the
     strict comparators; of something that is no number nothing but `!=` is said.

  2. **Scalars** — two scalars of one type, and any two numbers, are judged like that
     (`Scalar.judges`).  Others are not: of a string and a number not even `!=` holds.

  3. **Tests** — `FieldTest.Decides`: the test finds a value, of a kind that it can judge.  An
     admitted test decides wherever values conform to the declared types
     (`FieldCondition.decided_of_checkTests`), whether it is ever asked or not.  So it does under
     every NOT.
-/
import Verdict.Proofs.Decimal.Order
import Verdict.Proofs.Table.WellFormed

namespace Verdict

/-! ## Comparators -/

/-- Is the scalar a float that is not a number? -/
def Scalar.isNaN : Scalar → Bool
  | .float x => x.isNaN
  | _ => false

/-- What the comparators say of a scalar and a literal, if they judge these two. -/
structure Comparator.Judges (verdict : Comparator → Bool) (s literal : Scalar) : Prop where
  /-- What is not equal is different. -/
  different : verdict .notEquals = !verdict .equals
  /-- Two numbers stand in one of three orders. -/
  ordered : literal.isNumeric = true → s.isNaN = false → literal.isNaN = false →
    verdict .greaterThanOrEqual = (!verdict .lessThan)
      ∧ verdict .lessThanOrEqual = (!verdict .greaterThan)
      ∧ ∃! c, c ∈ [.lessThan, .equals, .greaterThan] ∧ verdict c = true
  /-- What is not a number differs from everything, and that is all. -/
  unordered : literal.isNumeric = true → s.isNaN = true ∨ literal.isNaN = true →
    ∀ c, verdict c = true ↔ c = .notEquals

namespace Comparator

/-- The comparator that holds of the operands of one order alone. -/
def ofOrdering : Ordering → Comparator
  | .lt => .lessThan
  | .eq => .equals
  | .gt => .greaterThan

/-- One of the three holds, that of the order. -/
theorem holdsOf_iff_eq_ofOrdering {c : Comparator} {o : Ordering} :
    c ∈ [.lessThan, .equals, .greaterThan] ∧ c.holdsOf o = true ↔ c = ofOrdering o := by
  cases c <;> cases o <;> decide

theorem holdsOf_notEquals (o : Ordering) : notEquals.holdsOf o = !equals.holdsOf o := by
  cases o <;> rfl

theorem holdsOf_greaterThanOrEqual (o : Ordering) :
    greaterThanOrEqual.holdsOf o = !lessThan.holdsOf o := by
  cases o <;> rfl

theorem holdsOf_lessThanOrEqual (o : Ordering) :
    lessThanOrEqual.holdsOf o = !greaterThan.holdsOf o := by
  cases o <;> rfl

/-- **Operands are judged by their order**, if they have none exactly when one is not a number.
    Then every comparator but `!=` says no; in an order, one of three says yes and the others are
    denied by pairs. -/
theorem judges_holds {o : Option Ordering} {s literal : Scalar}
    (h : o = none ↔ s.isNaN = true ∨ literal.isNaN = true) :
    Judges (·.holds o) s literal := by
  cases o with
  | none =>
      -- One of them is not a number, so nothing is claimed of numbers.
      refine ⟨rfl, fun _ hs hl => ?_, fun _ _ c => beq_iff_eq⟩
      rw [hs, hl] at h
      simp at h
  | some o =>
      refine ⟨holdsOf_notEquals o, fun _ _ _ => ?_, fun _ hnan => ?_⟩
      · refine ⟨holdsOf_greaterThanOrEqual o, holdsOf_lessThanOrEqual o, ofOrdering o, ?_, ?_⟩
        · exact holdsOf_iff_eq_ofOrdering.mpr rfl
        · exact fun c hc => holdsOf_iff_eq_ofOrdering.mp hc
      · cases h.mpr hnan

end Comparator

/-! ## Scalars -/

/-- What a type takes is of this type, or both are numeric. -/
theorem ScalarType.eq_or_isNumeric_of_takes {t u : ScalarType} (h : t.takes u = true) :
    u = t ∨ u.isNumeric = true ∧ t.isNumeric = true := by
  revert h
  cases t <;> cases u <;> decide

namespace Scalar

/-- Can the scalar be compared with the literal?  They are of one type, or numbers. -/
def Comparable (s literal : Scalar) : Prop :=
  s.type = literal.type ∨ s.isNumeric = true ∧ literal.isNumeric = true

/-- How two numbers stand to each other: integers exactly, all others as floats. -/
def order? : (left right : Scalar) → Option Ordering
  | int m, int n => some (compare m.toInt n.toInt)
  | left, right => left.toFloat?.bind fun x => right.toFloat?.bind (floatOrder x)

/-- Numbers are compared by their order. -/
theorem compares_of_isNumeric {s literal : Scalar} (hs : s.isNumeric = true)
    (hl : literal.isNumeric = true) (c : Comparator) :
    s.compares c literal = c.holds (s.order? literal) := by
  cases s with
  | bool _ | str _ => cases hs
  | int _ | float _ =>
      cases literal with
      | bool _ | str _ => cases hl
      | int _ | float _ => rfl

/-- Numbers have no order exactly if one of them is a float that is not a number.  Two integers
    always have one; as soon as one of them is a float both are compared as floats. -/
theorem order?_eq_none_iff {s literal : Scalar} (hs : s.isNumeric = true)
    (hl : literal.isNumeric = true) :
    s.order? literal = none ↔ s.isNaN = true ∨ literal.isNaN = true := by
  cases s with
  | bool _ | str _ => cases hs
  | int m =>
      cases literal with
      | bool _ | str _ => cases hl
      | int n => simp [order?, isNaN]
      | float y =>
          show floatOrder (Decimal.ofInt m.toInt) y = none ↔ _
          rw [Decimal.floatOrder_eq_none_iff, Decimal.isNaN_ofInt]
          rfl
  | float x =>
      cases literal with
      | bool _ | str _ => cases hl
      | int n =>
          show floatOrder x (Decimal.ofInt n.toInt) = none ↔ _
          rw [Decimal.floatOrder_eq_none_iff, Decimal.isNaN_ofInt]
          rfl
      | float y => exact Decimal.floatOrder_eq_none_iff

/-- **Scalars that can be compared** are judged: numbers by their order, and two booleans or two
    texts by `==` and `!=`, with nothing claimed of an order. -/
theorem judges {s literal : Scalar} (h : s.Comparable literal) :
    Comparator.Judges (fun c => s.compares c literal) s literal := by
  have hnumbers : s.isNumeric = true → literal.isNumeric = true →
      Comparator.Judges (fun c => s.compares c literal) s literal := by
    intro hs hl
    have hverdict : (fun c => s.compares c literal) = (·.holds (s.order? literal)) :=
      funext (compares_of_isNumeric hs hl)
    rw [hverdict]
    exact Comparator.judges_holds (order?_eq_none_iff hs hl)
  rcases h with htype | ⟨hs, hl⟩
  · -- Both of one type.
    cases literal with
    | int _ | float _ => exact hnumbers (congrArg ScalarType.isNumeric htype) rfl
    | bool b =>
        cases s with
        | bool a => exact ⟨Comparator.holdsOf_notEquals _, nofun, nofun⟩
        | _ => cases htype
    | str u =>
        cases s with
        | str t => exact ⟨Comparator.holdsOf_notEquals _, nofun, nofun⟩
        | _ => cases htype
  · exact hnumbers hs hl

/-- Others are not judged: neither is a text equal to a number, nor does it differ from it. -/
example : (str "18").compares .equals (int 18) = false
    ∧ (str "18").compares .notEquals (int 18) = false := ⟨rfl, rfl⟩

end Scalar

/-! ## Tests -/

namespace FieldTest

/-- A test that is decided on a value which `lookup` finds: a boolean if the test wants one, and
    otherwise a scalar that the comparators judge by the literal.  Only numbers are put in order. -/
inductive Decides (lookup : FieldPath → Option Value) : FieldTest → Prop
  | truthy {p : FieldPath} {b : Bool} (found : lookup p = some (.scalar (.bool b))) :
      Decides lookup (.truthy p)
  | compare {p : FieldPath} {c : Comparator} {s literal : Scalar}
      (found : lookup p = some (.scalar s)) (comparable : s.Comparable literal)
      (numeric : c.isOrdering = true → literal.isNumeric = true)
      (judged : Comparator.Judges
        (fun d => (FieldTest.compare p d literal).holds lookup) s literal) :
      Decides lookup (.compare p c literal)

/-- A comparison decides on a scalar that can be compared with its literal. -/
theorem decides_of_comparable {p : FieldPath} {c : Comparator} {s literal : Scalar}
    {lookup : FieldPath → Option Value} (hfound : lookup p = some (.scalar s))
    (hcomparable : s.Comparable literal)
    (hnumeric : c.isOrdering = true → literal.isNumeric = true) :
    (compare p c literal).Decides lookup := by
  refine .compare hfound hcomparable hnumeric ?_
  have hverdict : (fun d => (compare p d literal).holds lookup)
      = fun d => s.compares d literal := by
    funext d
    show holdsOf _ (lookup p) = _
    rw [hfound]
    rfl
  rw [hverdict]
  exact s.judges hcomparable

/-- **A test that makes sense for a type** decides on every value of this type.  The cases are the
    three in which a test makes sense: a boolean by itself, a number against a number, and anything
    else by equality against its own type. -/
theorem decides_of_conforms {test : FieldTest} {t : ValueType} {v : Value}
    {lookup : FieldPath → Option Value} (hsense : test.rejection? t = none)
    (hfound : lookup test.path = some v) (hv : Conforms t v) : test.Decides lookup := by
  cases rejection?_eq_none_iff.mp hsense with
  | truthy =>
      -- The boolean type takes booleans only.
      cases hv with
      | @scalar _ s takes =>
          cases s with
          | bool b => exact .truthy hfound
          | _ => cases takes
  | number literal_isNumeric isNumeric =>
      -- An integer may stand where a float is declared, and is a number all the same.
      cases hv with
      | scalar takes =>
          have hs := ScalarType.isNumeric_of_takes isNumeric takes
          exact decides_of_comparable hfound (Or.inr ⟨hs, literal_isNumeric⟩) fun _ =>
            literal_isNumeric
  | equality _ equality =>
      cases hv with
      | scalar takes =>
          have hlike := ScalarType.eq_or_isNumeric_of_takes takes
          refine decides_of_comparable hfound hlike fun h => ?_
          rw [Comparator.isOrdering_eq_false_iff.mpr equality] at h
          cases h

end FieldTest

/-! ## Conditions -/

namespace FieldCondition

/-- All tests of a condition are decided, also those that no evaluation asks. -/
def Decided (c : FieldCondition) (lookup : FieldPath → Option Value) : Prop :=
  ∀ test ∈ c.leaves, test.Decides lookup

/-- **An admitted condition is decided** wherever values conform to the declared types: each of its
    tests was checked against a declared type, and something of this type is found at its path. -/
theorem decided_of_checkTests {c : FieldCondition} {owner : ConditionOwner}
    {declared : FieldPath → Option ValueType} {lookup : FieldPath → Option Value}
    (h : c.checkTests owner declared = .ok ())
    (hfound : ∀ p t, declared p = some t → ∃ v, lookup p = some v ∧ Conforms t v) :
    c.Decided lookup := by
  intro test htest
  obtain ⟨t, ht, hsense⟩ := typed_of_checkTests h htest
  obtain ⟨v, hv, hconf⟩ := hfound test.path t ht
  exact FieldTest.decides_of_conforms hsense hv hconf

end FieldCondition

namespace Table

variable {t : Table} {limits : Limits} {r : Record}

/-- **The conditions of an admitted table** are decided for every accepted record. -/
theorem decided_of_check (admitted : t.check limits = .ok ()) (hin : t.input.check r = .ok ())
    {rule : Rule} (hrule : rule ∈ t.rules) : rule.condition.Decided r.lookup := by
  obtain ⟨_, _, _, _, _, hrules⟩ := check_eq_ok_iff.mp admitted
  have htests := (checkRule_eq_ok_iff.mp (hrules rule hrule)).2.1
  have hconf := Shape.check_eq_ok_iff.mp hin
  exact FieldCondition.decided_of_checkTests htests fun _ _ ht => hconf.lookup ht

end Table

end Verdict
