/-
  Admission of tables — what a table has to satisfy before it answers anything.

  1. **Specification** — `Table.check`, in the order in which objections are reported: at least one
     rule and not too many; an input shape without defects; a scalar output; rule names all
     different; and then rule by rule a condition within bounds, tests that make sense for the
     declared fields, and a result that fits the output.

  2. **Leaves** — EVERY test of a condition is checked, also those that an evaluation would never
     ask.

  Core only.
-/
import Verdict.Check
import Verdict.DefinitionError
import Verdict.Limits

namespace Verdict

/-- Checks the tests of a condition, from left to right, against the types of the fields. -/
def FieldCondition.checkTests (c : FieldCondition) (owner : ConditionOwner)
    (declared : FieldPath → Option ValueType) : Except DefinitionError Unit :=
  c.leaves.forM fun test =>
    match declared test.path with
    | none => .error (.unknownTestField owner test.path)
    | some type => forbid ((test.rejection? type).map (.testRejected owner test))

/-- Checks that a condition is within the limits. -/
def FieldCondition.checkBounds (c : FieldCondition) (owner : ConditionOwner) (limits : Limits) :
    Except DefinitionError Unit :=
  (limits.conditionBounds.check c).mapError (.conditionOutOfBounds owner)

namespace Table

/-- What keeps a result from fitting the table. -/
def resultDefect? (t : Table) : RuleResult → Option ResultDefect
  | .literal v => if t.output.accepts v then none else some (.literalMisfit v.kind t.output)
  | .linear field coefficient offset =>
      if t.output ≠ .float then some (.linearOutput t.output)
      else if !Decimal.isFinite coefficient || !Decimal.isFinite offset then some .notFinite
      else match t.input.lookup field with
        | none => some (.operandUndeclared field)
        | some type => if type.isNumeric then none else some (.operandNotNumeric field type)

/-- Checks one rule of the table. -/
def checkRule (t : Table) (limits : Limits) (r : Rule) : Except DefinitionError Unit := do
  let owner := ConditionOwner.rule r.id t.id
  r.condition.checkBounds owner limits
  r.condition.checkTests owner t.input.lookup
  forbid ((t.resultDefect? r.result).map (.invalidResult t.id r.id))

/-- Checks a table against the limits. -/
def check (t : Table) (limits : Limits) : Except DefinitionError Unit := do
  ensure (!t.rules.isEmpty) (.emptyTable t.id)
  ensure (t.rules.length ≤ limits.maxRules)
    (.tooManyRules t.id t.rules.length limits.maxRules)
  forbid (t.input.defect?.map (.badShape (.tableInput t.id)))
  ensure t.output.isScalar (.outputNotScalar t.id)
  forbid ((firstRepeated? (t.rules.map (·.id))).map (.duplicateRule t.id))
  t.rules.forM (t.checkRule limits)

end Table

end Verdict
