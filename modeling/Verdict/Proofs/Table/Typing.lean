/-
  Results of admitted tables — every rule has one, and it is of the declared type.

  1. **Admission** — `check_eq_ok_iff` opens the row of checks of a table, `checkRule_eq_ok_iff`
     that of a rule, and `typed_of_checkTests` what is checked of every test of a condition.

  2. **Results** — `resultOf_of_check`: the result of an admitted rule always has a value for a
     conforming record, and the value has EXACTLY the output type: a literal was accepted and is
     widened, and a linear function has found a NUMBER at its path.

  Core only.
-/
import Verdict.Proofs.Conformance
import Verdict.Table.Admission
import Verdict.Table.Evaluation

namespace Verdict

/-! ## Numbers and fields -/

/-- What a conforming record holds at a declared path conforms to the type that is declared. -/
theorem Conforms.lookup {shape : Shape} {r : Record} (h : Conforms (.record shape) (.record r))
    {p : FieldPath} {t : ValueType} (ht : shape.lookup p = some t) :
    ∃ v, r.lookup p = some v ∧ Conforms t v := by
  have hpath : (ValueType.record shape).at? p.names = some t := ht
  obtain ⟨v, hv, hconf⟩ := h.at? hpath
  exact ⟨v, hv, hconf⟩

/-- What a numeric type takes is numeric. -/
theorem ScalarType.isNumeric_of_takes {t u : ScalarType} (h : t.isNumeric = true)
    (htakes : t.takes u = true) : u.isNumeric = true := by
  revert h htakes
  cases t <;> cases u <;> decide

/-- A value of a numeric type is a number: an integer where a float is declared counts as well. -/
theorem Conforms.toFloat? {t : ValueType} {v : Value} (h : Conforms t v)
    (ht : t.isNumeric = true) : ∃ x, v.toFloat? = some x := by
  cases h with
  | @scalar t s takes =>
      have hs := ScalarType.isNumeric_of_takes ht takes
      cases s with
      | int n => exact ⟨_, rfl⟩
      | float x => exact ⟨x, rfl⟩
      | bool b => exact nomatch hs
      | str s => exact nomatch hs
  | record => exact nomatch ht

/-! ## Values of a scalar type -/

/-- A value that conforms to a scalar type has exactly this type once it is widened. -/
theorem ValueType.of_coerce {t : ValueType} {v : Value} (ht : t.isScalar = true)
    (h : Conforms t v) : ValueType.of (t.coerce v) = t := by
  cases h with
  | scalar takes => exact congrArg ValueType.scalar (Scalar.type_widenTo takes)
  | record => exact nomatch ht

/-- A value conforms to the scalar type that it has. -/
theorem Conforms.of_scalar {t : ValueType} {v : Value} (ht : t.isScalar = true)
    (h : ValueType.of v = t) : Conforms t v := by
  subst h
  cases v with
  | scalar s => exact .scalar s.type.takes_self
  | record r => exact nomatch ht

/-! ## Admission -/

/-- Every test of an admitted condition looks at a declared field, and makes sense for its type.
    The check asks this of ALL leaves, also of those that no evaluation reaches. -/
theorem FieldCondition.typed_of_checkTests {c : FieldCondition} {owner : ConditionOwner}
    {declared : FieldPath → Option ValueType} (h : c.checkTests owner declared = .ok ())
    {test : FieldTest} (ht : test ∈ c.leaves) :
    ∃ t, declared test.path = some t ∧ test.rejection? t = none := by
  have hone := forM_eq_ok_iff.mp h test ht
  cases hd : declared test.path with
  | none =>
      rw [hd] at hone
      cases hone
  | some t =>
      rw [hd] at hone
      exact ⟨t, rfl, Option.map_eq_none_iff.mp (forbid_eq_ok_iff.mp hone)⟩

namespace Table

/-- The check of a rule, opened once: bounds, tests, result. -/
theorem checkRule_eq_ok_iff {t : Table} {limits : Limits} {r : Rule} :
    t.checkRule limits r = .ok () ↔
      r.condition.checkBounds (.rule r.id t.id) limits = .ok ()
        ∧ r.condition.checkTests (.rule r.id t.id) t.input.lookup = .ok ()
        ∧ t.resultDefect? r.result = none := by
  simp only [checkRule, bind_eq_ok_iff, forbid_eq_ok_iff, Option.map_eq_none_iff]
  exact ⟨fun ⟨_, h₁, _, h₂, h₃⟩ => ⟨h₁, h₂, h₃⟩, fun ⟨h₁, h₂, h₃⟩ => ⟨(), h₁, (), h₂, h₃⟩⟩

/-- The check of a table, opened once, part by part in the order of the checks. -/
theorem check_eq_ok_iff {t : Table} {limits : Limits} :
    t.check limits = .ok () ↔
      t.rules ≠ [] ∧ t.rules.length ≤ limits.maxRules ∧ t.input.defect? = none
        ∧ t.output.isScalar = true ∧ (t.rules.map (·.id)).Nodup
        ∧ ∀ r ∈ t.rules, t.checkRule limits r = .ok () := by
  simp only [check, bind_eq_ok_iff, ensure_eq_ok_iff, forbid_eq_ok_iff, forM_eq_ok_iff,
    Option.map_eq_none_iff, firstRepeated?_eq_none_iff, decide_eq_true_eq]
  rw [Bool.not_eq_true', List.isEmpty_eq_false_iff]
  exact ⟨fun ⟨_, h₁, _, h₂, _, h₃, _, h₄, _, h₅, h₆⟩ => ⟨h₁, h₂, h₃, h₄, h₅, h₆⟩,
    fun ⟨h₁, h₂, h₃, h₄, h₅, h₆⟩ => ⟨(), h₁, (), h₂, (), h₃, (), h₄, (), h₅, h₆⟩⟩

/-! ## Results -/

/-- An admitted result has a value for every conforming record, and the value is EXACTLY of the
    output type: an integer literal under a float output has become a float.  A literal has its
    value without the record; only a linear function needs the record to conform. -/
theorem resultOf_of_resultDefect? {t : Table} {r : Rule} {input : Record}
    (hscalar : t.output.isScalar = true) (h : t.resultDefect? r.result = none)
    (hin : Conforms (.record t.input) (.record input)) :
    ∃ v, t.resultOf r input = .ok v ∧ ValueType.of v = t.output := by
  unfold resultOf
  cases hr : r.result with
  | literal v =>
      -- Without a defect the literal is accepted, and what is accepted can be widened.
      rw [hr, resultDefect?] at h
      split at h
      case isFalse => exact nomatch h
      rename_i haccepts
      refine ⟨t.output.coerce v, rfl, ?_⟩
      exact ValueType.of_coerce hscalar (ValueType.accepts_iff.mp haccepts)
  | linear field coefficient offset =>
      -- Four things could be wrong: the output, a number that is not finite, the field, its type.
      rw [hr, resultDefect?] at h
      split at h
      · exact nomatch h
      rename_i hfloat
      split at h
      · exact nomatch h
      split at h
      · exact nomatch h
      rename_i type htype
      split at h
      case isFalse => exact nomatch h
      rename_i hnum
      -- None is, so the record has a number at the field, and the result is a float.
      obtain ⟨w, hw, hconf⟩ := hin.lookup htype
      obtain ⟨x, hx⟩ := hconf.toFloat? hnum
      have hfound : (input.lookup field).bind Value.toFloat? = some x :=
        Option.bind_eq_some_iff.mpr ⟨w, hw, hx⟩
      refine ⟨.scalar (.float (x * coefficient + offset)), ?_, ?_⟩
      · dsimp only
        rw [hfound]
      · exact (Decidable.not_not.mp hfloat).symm

/-- Every rule of an admitted table has a result of the output type for every conforming record. -/
theorem resultOf_of_check {t : Table} {limits : Limits} {input : Record}
    (h : t.check limits = .ok ()) (hin : t.input.check input = .ok ()) {r : Rule}
    (hr : r ∈ t.rules) : ∃ v, t.resultOf r input = .ok v ∧ ValueType.of v = t.output := by
  obtain ⟨_, _, _, hscalar, _, hrules⟩ := check_eq_ok_iff.mp h
  have hresult := (checkRule_eq_ok_iff.mp (hrules r hr)).2.2
  exact resultOf_of_resultDefect? hscalar hresult (Shape.check_eq_ok_iff.mp hin)

end Table

end Verdict
