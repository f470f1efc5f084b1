/-
  First match — the answer of an admitted table, for every record.

  1. **Specification** — `IsFirst`: the rule at an index, if its condition is true and no condition
     before it is, ALL tests being asked and none passed over.  There is such a rule, or every
     condition is false (`isFirst_or_none`).

  2. **Program** — `answerFrom` walks past the rules that are false (`answerFrom_append`), so the
     first rule gives the answer, and a table without one says which record it had no rule for.

  3. **Theorem** — `evaluate_first_match`: only a record that the input shape rejects is refused;
     any other is answered by the first rule, with a value that has EXACTLY the output type, or it
     has no rule.  No operand is ever missing, and what stands after the first rule is not read.
-/
import Verdict.Proofs.Condition.Eager
import Verdict.Proofs.Table.Typing

namespace Verdict

/-- Is the condition of a rule true of a record, when all its tests are asked?  The program passes
    tests over; `Condition.holds_eq_eager` says that this makes no difference. -/
def Rule.isMet (r : Rule) (input : Record) : Bool :=
  r.condition.eager (FieldTest.holds input.lookup)

namespace Table

/-- The table with other rules after index `i`. -/
def withRulesAfter (t : Table) (i : Nat) (later : List Rule) : Table :=
  { t with rules := t.rules.take (i + 1) ++ later }

/-- The rule at index `i` is the first one whose condition is true. -/
structure IsFirst (t : Table) (input : Record) (i : Nat) (rule : Rule) : Prop where
  /-- It stands at this index. -/
  found : t.rules[i]? = some rule
  /-- Its condition is true. -/
  met : rule.isMet input = true
  /-- The index is the least one. -/
  least : ∀ (j : Nat) (earlier : Rule), j < i → t.rules[j]? = some earlier →
    earlier.isMet input = false

/-- There is a first rule, or no condition is true: where some rule is true there is one at the
    LEAST index. -/
theorem isFirst_or_none (t : Table) (input : Record) :
    (∃ i rule, t.IsFirst input i rule) ∨ ∀ rule ∈ t.rules, rule.isMet input = false := by
  classical
  by_cases h : ∃ (i : Nat) (rule : Rule), t.rules[i]? = some rule ∧ rule.isMet input = true
  · obtain ⟨rule, hfound, hmet⟩ := Nat.find_spec h
    refine Or.inl ⟨Nat.find h, rule, hfound, hmet, fun j earlier hj hearlier => ?_⟩
    have hnot := Nat.find_min h hj
    rw [← Bool.not_eq_true]
    exact fun hmet => hnot ⟨earlier, hearlier, hmet⟩
  · refine Or.inr fun rule hrule => ?_
    obtain ⟨i, hi⟩ := List.getElem?_of_mem hrule
    rw [← Bool.not_eq_true]
    exact fun hmet => h ⟨i, rule, hi, hmet⟩

/-! ## Walking along the rules -/

/-- Rules that are false are passed by, and counted.  This is the step of the walk, taken once for
    each rule in front. -/
theorem answerFrom_append {t : Table} {input : Record} {before rules : List Rule} {index : Nat}
    (h : ∀ r ∈ before, r.isMet input = false) :
    t.answerFrom input index (before ++ rules)
      = t.answerFrom input (index + before.length) rules := by
  induction before generalizing index with
  | nil => rfl
  | cons r before ih =>
      obtain ⟨hr, hbefore⟩ := List.forall_mem_cons.mp h
      have hfalse : ¬ r.condition.holds (FieldTest.holds input.lookup) = true := by
        rw [Condition.holds_eq_eager]
        exact Bool.not_eq_true _ ▸ hr
      rw [List.cons_append, answerFrom, if_neg hfalse, ih hbefore, List.length_cons]
      congr 1
      omega

/-- A rule that is true answers. -/
theorem answerFrom_cons_of_isMet {t : Table} {input : Record} {r : Rule} {rules : List Rule}
    {index : Nat} (h : r.isMet input = true) :
    t.answerFrom input index (r :: rules)
      = (t.resultOf r input).map fun v => ⟨index, r.id, v⟩ := by
  have htrue : r.condition.holds (FieldTest.holds input.lookup) = true := by
    rw [Condition.holds_eq_eager]
    exact h
  rw [answerFrom, if_pos htrue]
  cases t.resultOf r input <;> rfl

/-- If no rule is true, none answers: the walk comes to the end of the rules. -/
theorem answerFrom_of_none {t : Table} {input : Record} {index : Nat}
    (h : ∀ rule ∈ t.rules, rule.isMet input = false) :
    t.answerFrom input index t.rules = .error (.noRuleMatched t.id input) := by
  have hwalk := @answerFrom_append t input t.rules [] index h
  rw [List.append_nil] at hwalk
  exact hwalk

namespace IsFirst

variable {t : Table} {input : Record} {i : Nat} {rule : Rule}

/-- The rules before the first one, itself, and the rules after it. -/
theorem rules_eq (h : t.IsFirst input i rule) :
    t.rules = t.rules.take i ++ rule :: t.rules.drop (i + 1) := by
  obtain ⟨hlt, hrule⟩ := List.getElem?_eq_some_iff.mp h.found
  rw [← hrule, ← List.drop_eq_getElem_cons hlt, List.take_append_drop]

/-- The first rule gives the answer: the walk passes by the `i` rules before it, so that it arrives
    with the index `i`, and it is true. -/
theorem answerFrom_eq (h : t.IsFirst input i rule) :
    t.answerFrom input 0 t.rules = (t.resultOf rule input).map fun v => ⟨i, rule.id, v⟩ := by
  obtain ⟨hlt, _⟩ := List.getElem?_eq_some_iff.mp h.found
  have hbefore : ∀ r ∈ t.rules.take i, r.isMet input = false := by
    intro r hr
    obtain ⟨j, hj, hget⟩ := List.mem_take_iff_getElem.mp hr
    exact h.least j r (by omega) (List.getElem?_eq_some_iff.mpr ⟨by omega, hget⟩)
  have hlength : 0 + (t.rules.take i).length = i := by
    rw [List.length_take]
    omega
  calc t.answerFrom input 0 t.rules
      = t.answerFrom input 0 (t.rules.take i ++ rule :: t.rules.drop (i + 1)) := by
        rw [← h.rules_eq]
    _ = t.answerFrom input i (rule :: t.rules.drop (i + 1)) := by
        rw [answerFrom_append hbefore, hlength]
    _ = (t.resultOf rule input).map fun v => ⟨i, rule.id, v⟩ :=
        answerFrom_cons_of_isMet h.met

/-- A first rule stays the first one whatever stands after it. -/
theorem withRulesAfter (h : t.IsFirst input i rule) (later : List Rule) :
    (t.withRulesAfter i later).IsFirst input i rule := by
  obtain ⟨hlt, _⟩ := List.getElem?_eq_some_iff.mp h.found
  have hkept : ∀ j ≤ i, (t.rules.take (i + 1) ++ later)[j]? = t.rules[j]? := by
    intro j hj
    have hlen : j < (t.rules.take (i + 1)).length := by
      rw [List.length_take]
      omega
    rw [List.getElem?_append_left hlen, List.getElem?_take_of_lt (by omega)]
  -- Up to the index `i` both tables have the same rules, so what is said of them is the same.
  refine ⟨?_, h.met, fun j earlier hj hearlier => ?_⟩
  · exact (hkept i (Nat.le_refl i)).trans h.found
  · exact h.least j earlier hj ((hkept j (Nat.le_of_lt hj)).symm.trans hearlier)

end IsFirst

/-! ## Answers -/

/-- How a table answers a record. -/
structure AnswersByFirst (t : Table) (input : Record) : Prop where
  /-- It refuses what its input shape rejects, with the violation, and nothing else. -/
  refused : ∀ table violation, t.evaluate input = .error (.invalidInput table violation) ↔
    table = t.id ∧ t.input.check input = .error violation
  /-- The first rule answers, with a value of exactly the output type. -/
  answered : t.input.check input = .ok () → ∀ i rule, t.IsFirst input i rule →
    ∃ v, t.evaluate input = .ok ⟨i, rule.id, v⟩ ∧ t.resultOf rule input = .ok v
      ∧ ValueType.of v = t.output
  /-- Without a first rule the report carries the record. -/
  unmatched : t.input.check input = .ok () → (∀ i rule, ¬ t.IsFirst input i rule) →
    t.evaluate input = .error (.noRuleMatched t.id input)
  /-- No linear result lacks its operand. -/
  numeric : ∀ table rule field,
    t.evaluate input ≠ .error (.nonNumericOperand table rule field)
  /-- Other rules after the first one make no difference. -/
  stable : ∀ i rule, t.IsFirst input i rule → ∀ later : List Rule,
    (t.withRulesAfter i later).evaluate input = t.evaluate input

theorem evaluate_of_rejected {t : Table} {input : Record} {violation : ShapeViolation}
    (h : t.input.check input = .error violation) :
    t.evaluate input = .error (.invalidInput t.id violation) := by
  rw [evaluate, h]

theorem IsFirst.evaluate_eq {t : Table} {input : Record} {i : Nat} {rule : Rule}
    (h : t.IsFirst input i rule) (hin : t.input.check input = .ok ()) :
    t.evaluate input = (t.resultOf rule input).map fun v => ⟨i, rule.id, v⟩ := by
  rw [evaluate, hin]
  exact h.answerFrom_eq

theorem evaluate_of_none {t : Table} {input : Record} (hin : t.input.check input = .ok ())
    (h : ∀ rule ∈ t.rules, rule.isMet input = false) :
    t.evaluate input = .error (.noRuleMatched t.id input) := by
  rw [evaluate, hin]
  exact answerFrom_of_none h

/-- **Every answer names its rule**: the first one, which has given the value.  The table need not
    be admitted. -/
theorem isFirst_of_evaluate {t : Table} {input : Record} {a : Answer}
    (h : t.evaluate input = .ok a) :
    ∃ rule, t.IsFirst input a.ruleIndex rule ∧ rule.id = a.ruleId
      ∧ t.resultOf rule input = .ok a.value := by
  cases hin : t.input.check input with
  | error violation => exact nomatch (evaluate_of_rejected hin).symm.trans h
  | ok u =>
      rcases t.isFirst_or_none input with ⟨i, rule, hfirst⟩ | hnone
      · rw [hfirst.evaluate_eq hin] at h
        cases hv : t.resultOf rule input with
        | error e =>
            -- The first rule has no result: then the table has no answer either.
            rw [hv] at h
            exact nomatch h
        | ok v =>
            rw [hv] at h
            cases h
            exact ⟨rule, hfirst, rfl, hv⟩
      · exact nomatch (evaluate_of_none hin hnone).symm.trans h

/-- The answer of an admitted table for a record that has a first rule.  Admission gives the rule a
    result (`resultOf_of_check`), and the first rule's result is the answer. -/
theorem IsFirst.answer {t : Table} {limits : Limits} {input : Record} {i : Nat} {rule : Rule}
    (h : t.IsFirst input i rule) (admitted : t.check limits = .ok ())
    (hin : t.input.check input = .ok ()) :
    ∃ v, t.evaluate input = .ok ⟨i, rule.id, v⟩ ∧ t.resultOf rule input = .ok v
      ∧ ValueType.of v = t.output := by
  have hmem : rule ∈ t.rules := List.mem_of_getElem? h.found
  obtain ⟨v, hv, htype⟩ := resultOf_of_check admitted hin hmem
  refine ⟨v, ?_, hv, htype⟩
  rw [h.evaluate_eq hin, hv]
  rfl

/-- **Total on conforming input.**  An admitted table answers a conforming record with a value of
    its output type, or says that no rule matched. -/
theorem evaluate_of_check {t : Table} {limits : Limits} {input : Record}
    (h : t.check limits = .ok ()) (hin : t.input.check input = .ok ()) :
    (∃ a, t.evaluate input = .ok a ∧ Conforms t.output a.value)
      ∨ t.evaluate input = .error (.noRuleMatched t.id input) := by
  rcases t.isFirst_or_none input with ⟨i, rule, hfirst⟩ | hnone
  · obtain ⟨v, hv, _, htype⟩ := hfirst.answer h hin
    obtain ⟨_, _, _, hscalar, _, _⟩ := check_eq_ok_iff.mp h
    exact Or.inl ⟨_, hv, .of_scalar hscalar htype⟩
  · exact Or.inr (evaluate_of_none hin hnone)

/-- Only what the input shape rejects is refused as an input, and the refusal carries the table and
    the violation that the shape reports. -/
theorem evaluate_eq_invalidInput_iff {t : Table} {limits : Limits} {input : Record}
    (h : t.check limits = .ok ()) {table : String} {violation : ShapeViolation} :
    t.evaluate input = .error (.invalidInput table violation) ↔
      table = t.id ∧ t.input.check input = .error violation := by
  cases hin : t.input.check input with
  | error found =>
      rw [evaluate_of_rejected hin]
      constructor
      · intro heq
        cases heq
        exact ⟨rfl, rfl⟩
      · rintro ⟨rfl, heq⟩
        cases heq
        rfl
  | ok u =>
      -- A conforming record is answered or has no rule, and neither is a refusal.
      constructor
      · intro heq
        rcases evaluate_of_check h hin with ⟨a, ha, _⟩ | hnone
        · cases ha.symm.trans heq
        · cases hnone.symm.trans heq
      · rintro ⟨_, heq⟩
        cases heq

/-- An admitted table never lacks the operand of a linear result. -/
theorem evaluate_ne_nonNumericOperand {t : Table} {limits : Limits} {input : Record}
    (h : t.check limits = .ok ()) (table rule field : String) :
    t.evaluate input ≠ .error (.nonNumericOperand table rule field) := by
  intro heq
  cases hin : t.input.check input with
  | error violation => cases (evaluate_of_rejected hin).symm.trans heq
  | ok u =>
      rcases evaluate_of_check h hin with ⟨a, ha, _⟩ | hnone
      · cases ha.symm.trans heq
      · cases hnone.symm.trans heq

/-- What stands after the first rule is not read. -/
theorem IsFirst.evaluate_withRulesAfter {t : Table} {input : Record} {i : Nat} {rule : Rule}
    (h : t.IsFirst input i rule) (later : List Rule) :
    (t.withRulesAfter i later).evaluate input = t.evaluate input := by
  cases hin : t.input.check input with
  | error violation =>
      have hin' : (t.withRulesAfter i later).input.check input = .error violation := hin
      rw [evaluate_of_rejected hin, evaluate_of_rejected hin']
      rfl
  | ok u =>
      rw [(h.withRulesAfter later).evaluate_eq hin, h.evaluate_eq hin]
      rfl

/-- **First match.**  An admitted table refuses what its input shape rejects, and answers every
    other record by its first rule.  Of the five parts, `refused`, `answered` and `numeric` need
    the admission; `unmatched` and `stable` hold of every table. -/
theorem evaluate_first_match {t : Table} {limits : Limits} (admitted : t.check limits = .ok ())
    (input : Record) : t.AnswersByFirst input where
  refused _ _ := evaluate_eq_invalidInput_iff admitted
  answered hin _ _ hfirst := hfirst.answer admitted hin
  unmatched hin hnone := by
    rcases t.isFirst_or_none input with ⟨i, rule, hfirst⟩ | hfalse
    · exact absurd hfirst (hnone i rule)
    · exact evaluate_of_none hin hfalse
  numeric := evaluate_ne_nonNumericOperand admitted
  stable _ _ hfirst := hfirst.evaluate_withRulesAfter

/-! ## A small table -/

/-- The price of a ticket: children pay nothing.  The output is a float, the literals are integers.
    -/
def priceTable : Table where
  id := "price"
  input := .cons "age" .int .nil
  output := .float
  rules :=
    [ { id := "child"
        condition := .not (.leaf (.compare (.field "age") .greaterThan (.int 11)))
        result := .literal (.scalar (.int 0)) },
      { id := "anybody"
        condition := .constant true
        result := .literal (.scalar (.int 12)) } ]

/-- The second rule answers an adult, with a float. -/
theorem evaluate_first_match_price :
    priceTable.check .default = .ok ()
      ∧ ∃ v, priceTable.evaluate (.cons "age" (.scalar (.int 40)) .nil)
            = .ok ⟨1, "anybody", v⟩
          ∧ ValueType.of v = .float := by
  have hfirst : priceTable.IsFirst (.cons "age" (.scalar (.int 40)) .nil) 1
      { id := "anybody"
        condition := .constant true
        result := .literal (.scalar (.int 12)) } := by
    refine ⟨rfl, rfl, fun j earlier hj hearlier => ?_⟩
    obtain rfl : j = 0 := by omega
    cases hearlier
    rfl
  obtain ⟨v, hv, _, htype⟩ := (@evaluate_first_match priceTable .default rfl
    (.cons "age" (.scalar (.int 40)) .nil)).answered rfl 1 _ hfirst
  exact ⟨rfl, v, hv, htype⟩

end Table

end Verdict
