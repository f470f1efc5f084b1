/-
  Decision tables — ordered rules over one declared input.

  1. **Data** — a table declares the shape of its input, the type of its output, and rules.  A rule
     has a condition and a result: a fixed value, or a LINEAR function of one numeric field.

  2. **Meaning** — the first rule whose condition holds answers.  There is no implicit default: a
     table says `when true` in its last rule if it wants one.

  What a table has to satisfy is checked on admission (`Table.check`), what it answers is
  `Table.evaluate`.

  Core only.
-/
import Verdict.FieldTest

namespace Verdict

/-- What a rule answers. -/
inductive RuleResult where
  /-- A fixed value. -/
  | literal (value : Value)
  /-- The product of a field and the coefficient, plus the offset. -/
  | linear (field : FieldPath) (coefficient offset : Float)

/-- One rule of a table. -/
structure Rule where
  id : String
  condition : FieldCondition
  result : RuleResult

/-- A decision table. -/
structure Table where
  id : String
  input : Shape
  output : ValueType
  rules : List Rule

end Verdict
