/-
  Well-formed tables — what a table has to be, said without the check.

  1. **Tests** — `FieldTest.Suits`: a bare path wants a boolean field, a number a numeric one, and
     any other literal a field of its own type, which it is compared with for equality alone.

  2. **Conditions** — `FieldCondition.WellFormed`: within the limits, and EVERY test suits a
     declared field, whether an evaluation would ask it or not.  What is declared is left open: for
     a rule it is the input of its table, for a gate the results of steps.

  3. **Results** — `Table.Answers`: a literal that the output takes, or a linear function of a
     declared number into a float output.

  4. **Theorem** — `check_eq_ok_iff_wellFormed`: the check passes exactly the well-formed tables.
     It is neither weaker, so that a run could fail on what was let through, nor stricter.

  5. **Spelling** — `WellFormed.parsed`: the paths of a well-formed table can all be parsed.

  Core only.
-/
import Verdict.Proofs.Table.Typing

namespace Verdict

/-! ## Tests -/

/-- A test that makes sense for a field of a type. -/
inductive FieldTest.Suits : FieldTest → ValueType → Prop
  | truthy {path : FieldPath} : Suits (.truthy path) .bool
  | number {path : FieldPath} {c : Comparator} {literal : Scalar} {t : ScalarType}
      (literal_isNumeric : literal.isNumeric = true) (isNumeric : t.isNumeric = true) :
      Suits (.compare path c literal) (.scalar t)
  | equality {path : FieldPath} {c : Comparator} {literal : Scalar}
      (not_isNumeric : literal.isNumeric = false) (equality : c = .equals ∨ c = .notEquals) :
      Suits (.compare path c literal) (.scalar literal.type)

theorem Comparator.isOrdering_eq_false_iff {c : Comparator} :
    c.isOrdering = false ↔ c = .equals ∨ c = .notEquals := by
  cases c <;> decide

theorem ScalarType.takes_iff {t u : ScalarType} :
    t.takes u = true ↔ u = t ∨ u = .int ∧ t = .float := by
  cases t <;> cases u <;> decide

theorem ValueType.isNumeric_iff {t : ValueType} :
    t.isNumeric = true ↔ ∃ u, t = .scalar u ∧ u.isNumeric = true := by
  cases t with
  | scalar u => exact ⟨fun h => ⟨u, rfl, h⟩, fun ⟨_, heq, h⟩ => by cases heq; exact h⟩
  | record s => exact ⟨nofun, fun ⟨_, heq, _⟩ => by cases heq⟩

namespace FieldTest

/-- A comparison with a number suits the numeric fields. -/
theorem suits_number_iff {path : FieldPath} {c : Comparator} {literal : Scalar} {type : ValueType}
    (h : literal.isNumeric = true) :
    (compare path c literal).Suits type ↔ type.isNumeric = true := by
  rw [ValueType.isNumeric_iff]
  constructor
  · intro hsuits
    cases hsuits with
    | number _ isNumeric => exact ⟨_, rfl, isNumeric⟩
    | equality not_isNumeric =>
        rw [h] at not_isNumeric
        cases not_isNumeric
  · rintro ⟨t, rfl, ht⟩
    exact .number h ht

/-- A comparison with anything else suits the fields of its type, if no order is asked for. -/
theorem suits_equality_iff {path : FieldPath} {c : Comparator} {literal : Scalar}
    {type : ValueType} (h : literal.isNumeric = false) :
    (compare path c literal).Suits type ↔
      c.isOrdering = false ∧ type = .scalar literal.type := by
  rw [Comparator.isOrdering_eq_false_iff]
  constructor
  · intro hsuits
    cases hsuits with
    | number literal_isNumeric _ =>
        rw [h] at literal_isNumeric
        cases literal_isNumeric
    | equality _ equality => exact ⟨equality, rfl⟩
  · rintro ⟨hc, rfl⟩
    exact .equality h hc

/-- No objection is raised against exactly the tests that suit the field.  Literals come in two
    kinds, the numbers and the others, and each has its own constructor of `Suits`. -/
theorem rejection?_eq_none_iff {test : FieldTest} {type : ValueType} :
    test.rejection? type = none ↔ test.Suits type := by
  cases test with
  | truthy path =>
      rw [rejection?]
      constructor
      · intro h
        split at h
        · rename_i heq
          subst heq
          exact .truthy
        · cases h
      · intro h
        cases h
        rfl
  | compare path c literal =>
      cases literal with
      | int _ | float _ =>
          rw [suits_number_iff rfl]
          simp [rejection?]
      | bool _ | str _ =>
          rw [suits_equality_iff rfl]
          cases hc : c.isOrdering <;> simp [rejection?, hc, Scalar.type]

end FieldTest

/-! ## Conditions -/

/-- A condition within the limits whose tests all suit fields that are declared; `declared p t` if
    a field of type `t` is declared at the path `p`. -/
structure FieldCondition.WellFormed (c : FieldCondition) (limits : Limits)
    (declared : FieldPath → ValueType → Prop) : Prop where
  depth_le : c.depth ≤ limits.maxConditionDepth
  size_le : c.size ≤ limits.maxConditionNodes
  suited : ∀ test ∈ c.leaves, ∃ t, declared test.path t ∧ test.Suits t

namespace FieldCondition

variable {c : FieldCondition} {owner : ConditionOwner} {limits : Limits}

/-- The bounds are checked by the same function as for condition texts, and its error is given an
    owner. -/
theorem checkBounds_eq_ok_iff :
    c.checkBounds owner limits = .ok () ↔
      c.depth ≤ limits.maxConditionDepth ∧ c.size ≤ limits.maxConditionNodes := by
  have hbounds : limits.conditionBounds.check c = .ok () ↔
      c.depth ≤ limits.maxConditionDepth ∧ c.size ≤ limits.maxConditionNodes :=
    Condition.Bounds.check_eq_ok_iff
  rw [checkBounds]
  cases h : limits.conditionBounds.check c with
  | ok u => exact ⟨fun _ => hbounds.mp h, fun _ => rfl⟩
  | error e =>
      rw [h] at hbounds
      exact ⟨nofun, fun hle => by cases hbounds.mpr hle⟩

/-- The check goes over all leaves, and asks of each one a declared field and no objection. -/
theorem checkTests_eq_ok_iff {declared : FieldPath → Option ValueType} :
    c.checkTests owner declared = .ok () ↔
      ∀ test ∈ c.leaves, ∃ t, declared test.path = some t ∧ test.Suits t := by
  rw [checkTests, forM_eq_ok_iff]
  refine forall₂_congr fun test _ => ?_
  cases declared test.path with
  | none => exact ⟨nofun, fun ⟨_, h, _⟩ => by cases h⟩
  | some type =>
      simp only [forbid_eq_ok_iff, Option.map_eq_none_iff, FieldTest.rejection?_eq_none_iff,
        Option.some_inj]
      exact ⟨fun h => ⟨type, rfl, h⟩, fun ⟨_, heq, h⟩ => heq ▸ h⟩

/-- **Both checks of a condition** together pass the well-formed ones, whoever owns it: the owner is
    only named in the errors.  `Declared` is the relation that the table of declarations decides;
    rules and gates have different ones. -/
theorem wellFormed_iff (owner : ConditionOwner) {declared : FieldPath → Option ValueType}
    {Declared : FieldPath → ValueType → Prop} (h : ∀ p t, declared p = some t ↔ Declared p t) :
    c.WellFormed limits Declared ↔
      c.checkBounds owner limits = .ok () ∧ c.checkTests owner declared = .ok () := by
  rw [checkBounds_eq_ok_iff, checkTests_eq_ok_iff]
  simp only [h]
  exact ⟨fun hc => ⟨⟨hc.depth_le, hc.size_le⟩, hc.suited⟩, fun hc => ⟨hc.1.1, hc.1.2, hc.2⟩⟩

end FieldCondition

/-! ## Tables -/

namespace Table

/-- A result that the output type of the table takes. -/
inductive Answers (t : Table) : RuleResult → Prop
  | literal {s : Scalar} {u : ScalarType} (output : t.output = .scalar u)
      (taken : s.type = u ∨ s.type = .int ∧ u = .float) : Answers t (.literal (.scalar s))
  | linear {field : FieldPath} {coefficient offset : Float} {u : ScalarType}
      (output : t.output = .float)
      (operand : (ValueType.record t.input).Declares field.names (.scalar u))
      (isNumeric : u.isNumeric = true) (isFinite_coefficient : Decimal.isFinite coefficient = true)
      (isFinite_offset : Decimal.isFinite offset = true) :
      Answers t (.linear field coefficient offset)

/-- A table that says what it answers, of what it declares, within the limits. -/
structure WellFormed (t : Table) (limits : Limits) : Prop where
  rules_pos : 1 ≤ t.rules.length
  rules_le : t.rules.length ≤ limits.maxRules
  input : (ValueType.record t.input).WellNamed
  output : ∃ u, t.output = .scalar u
  distinct : (t.rules.map (·.id)).Nodup
  conditions : ∀ r ∈ t.rules, r.condition.WellFormed limits fun p type =>
    (ValueType.record t.input).Declares p.names type
  results : ∀ r ∈ t.rules, t.Answers r.result

variable {t : Table} {limits : Limits}

/-- A shape without defects finds at a path what it declares there. -/
theorem lookup_eq_some_iff {s : Shape} (h : s.defect? = none) {p : FieldPath} {type : ValueType} :
    s.lookup p = some type ↔ (ValueType.record s).Declares p.names type := by
  have hs : (ValueType.record s).Unambiguous :=
    .of_defect? (by rw [ValueType.defect?_record, h])
  show (ValueType.record s).at? p.names = some type ↔ _
  exact hs.at?_eq_some_iff

/-- A literal fits if the output type takes it. -/
theorem accepts_iff_answers {v : Value} {u : ScalarType} (hu : t.output = .scalar u) :
    t.output.accepts v = true ↔ t.Answers (.literal v) := by
  rw [hu]
  cases v with
  | scalar s =>
      show u.takes s.type = true ↔ _
      rw [ScalarType.takes_iff]
      constructor
      · exact .literal hu
      · intro h
        cases h with
        | literal output taken =>
            rw [hu] at output
            cases output
            exact taken
  | record r =>
      constructor
      · intro h
        cases h
      · intro h
        cases h

/-- A result has no defect exactly if the output type takes it. -/
theorem resultDefect?_eq_none_iff (hin : t.input.defect? = none) {u : ScalarType}
    (hu : t.output = .scalar u) {result : RuleResult} :
    t.resultDefect? result = none ↔ t.Answers result := by
  cases result with
  | literal v =>
      rw [resultDefect?, ← accepts_iff_answers hu]
      cases t.output.accepts v <;> simp
  | linear field coefficient offset =>
      have hdeclared : ∀ type, t.input.lookup field = some type ↔ _ :=
        fun type => lookup_eq_some_iff hin
      rw [resultDefect?]
      constructor
      · -- Each test of `resultDefect?` that is passed gives one part of `Answers.linear`.
        intro h
        split at h
        · cases h
        rename_i hfloat
        split at h
        · cases h
        rename_i hfinite
        split at h
        · cases h
        rename_i type htype
        split at h
        case isFalse => cases h
        rename_i hnum
        obtain ⟨w, rfl, hw⟩ := ValueType.isNumeric_iff.mp hnum
        have hfinite : Decimal.isFinite coefficient = true ∧ Decimal.isFinite offset = true := by
          simpa using hfinite
        exact .linear (Decidable.not_not.mp hfloat) ((hdeclared _).mp htype) hw hfinite.1 hfinite.2
      · intro h
        cases h with
        | linear output operand isNumeric isFinite_coefficient isFinite_offset =>
            rw [output, isFinite_coefficient, isFinite_offset, (hdeclared _).mpr operand]
            exact if_pos isNumeric

/-- **Exactly the well-formed tables are admitted**, whatever the limits.  The parts of the check
    and the fields of `WellFormed` stand in the same order; only the rules take an argument, since
    a declared field is found by `lookup` in the one and by `Declares` in the other. -/
theorem check_eq_ok_iff_wellFormed (t : Table) (limits : Limits) :
    t.check limits = .ok () ↔ t.WellFormed limits := by
  rw [check_eq_ok_iff]
  constructor
  · rintro ⟨hsome, hfew, hin, hscalar, hdistinct, hrules⟩
    -- A scalar output is the output of SOME scalar type, which the results are measured against.
    have hu : ∃ u, t.output = .scalar u := by
      cases hout : t.output with
      | scalar u => exact ⟨u, rfl⟩
      | record s =>
          rw [hout] at hscalar
          cases hscalar
    obtain ⟨u, hu⟩ := hu
    refine ⟨List.length_pos_iff.mpr hsome, hfew, Shape.wellNamed_iff.mpr hin, ⟨u, hu⟩, hdistinct,
      fun r hr => ?_, fun r hr => ?_⟩
    · obtain ⟨hbounds, htests, _⟩ := checkRule_eq_ok_iff.mp (hrules r hr)
      exact (FieldCondition.wellFormed_iff (.rule r.id t.id) fun p type =>
        lookup_eq_some_iff hin).mpr ⟨hbounds, htests⟩
    · exact (resultDefect?_eq_none_iff hin hu).mp (checkRule_eq_ok_iff.mp (hrules r hr)).2.2
  · intro h
    obtain ⟨u, hu⟩ := h.output
    have hin := Shape.wellNamed_iff.mp h.input
    refine ⟨List.length_pos_iff.mp h.rules_pos, h.rules_le, hin, ?_, h.distinct, fun r hr => ?_⟩
    · rw [hu]
      rfl
    · obtain ⟨hbounds, htests⟩ := (FieldCondition.wellFormed_iff (.rule r.id t.id) fun p type =>
        lookup_eq_some_iff hin).mp (h.conditions r hr)
      exact checkRule_eq_ok_iff.mpr
        ⟨hbounds, htests, (resultDefect?_eq_none_iff hin hu).mpr (h.results r hr)⟩

/-- **A well-formed table can be spelled.**  Whatever paths its rules were put together from, those
    that its tests and its results read can all be parsed: they lead to declared fields. -/
theorem WellFormed.parsed (h : t.WellFormed limits) {r : Rule} (hr : r ∈ t.rules) :
    (∀ test ∈ r.condition.leaves, test.path.Parsed)
      ∧ ∀ field coefficient offset, r.result = .linear field coefficient offset → field.Parsed := by
  refine ⟨fun test htest => ?_, fun field coefficient offset hresult => ?_⟩
  · -- Declared names are identifiers, since the input shape is well named.
    obtain ⟨type, declared, _⟩ := (h.conditions r hr).suited test htest
    exact h.input.parsed declared
  · have hanswers := h.results r hr
    rw [hresult] at hanswers
    cases hanswers with
    | linear _ operand _ _ _ => exact h.input.parsed operand

end Table

end Verdict
