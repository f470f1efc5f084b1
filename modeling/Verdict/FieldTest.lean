/-
  Field tests — the leaves of every rule condition and every gate.

  1. **Data** — a bare path, or a path compared with a literal.

  2. **Specification** — a test looks at ONE value, which may be missing.  It fails CLOSED: a
     missing field and a field of another kind hold of nothing, not even of `!=`.

  3. **Types** — `rejection?` says why a test makes no sense for a declared type.  A definition is
     admitted only if no test of it is rejected, so that the closed failure decides nothing there.

  Core only.
-/
import Verdict.Condition.Evaluation
import Verdict.Condition.Printer
import Verdict.Condition.Reader
import Verdict.Shape.Basic

namespace Verdict

/-- A test of one field. -/
inductive FieldTest where
  /-- The field holds `true`. -/
  | truthy (path : FieldPath)
  /-- The comparator holds between the field and the literal. -/
  | compare (path : FieldPath) (comparator : Comparator) (literal : Scalar)

/-- Why a test makes no sense for a field of some type. -/
inductive TestRejection where
  | bareFieldNotBool
  | numberAgainstOther
  | orderingWithoutNumbers
  | boolAgainstOther
  | strAgainstOther
  deriving DecidableEq, Repr

/-- The wording of a rejection. -/
def TestRejection.message : TestRejection → String
  | bareFieldNotBool => "bare field references require a bool field"
  | numberAgainstOther => "numeric literal compared against a non-numeric field"
  | orderingWithoutNumbers => "ordering comparators require numeric operands"
  | boolAgainstOther => "bool literal compared against a non-bool field"
  | strAgainstOther => "string literal compared against a non-string field"

namespace FieldTest

/-- The field that a test looks at. -/
def path : FieldTest → FieldPath
  | truthy p => p
  | compare p _ _ => p

/-- Equality of tests; literals compare as scalars do. -/
def beq : FieldTest → FieldTest → Bool
  | truthy p, truthy q => p == q
  | compare p c s, compare q d t => p == q && c == d && s == t
  | _, _ => false

instance : BEq FieldTest := ⟨beq⟩

/-- Does the test hold of the value found at its path? -/
def holdsOf : FieldTest → Option Value → Bool
  | truthy _, some (.scalar (.bool b)) => b
  | compare _ c literal, some (.scalar s) => s.compares c literal
  | _, _ => false

/-- Does the test hold when `lookup` finds the values of paths? -/
def holds (lookup : FieldPath → Option Value) (t : FieldTest) : Bool :=
  t.holdsOf (lookup t.path)

/-- Why the test makes no sense for a field of the given type, if it makes none. -/
def rejection? : FieldTest → ValueType → Option TestRejection
  | truthy _, type => if type = .bool then none else some .bareFieldNotBool
  | compare _ c literal, type =>
      match literal with
      | .int _ | .float _ => if type.isNumeric then none else some .numberAgainstOther
      | .bool _ =>
          if c.isOrdering then some .orderingWithoutNumbers
          else if type = .bool then none
          else some .boolAgainstOther
      | .str _ =>
          if c.isOrdering then some .orderingWithoutNumbers
          else if type = .str then none
          else some .strAgainstOther

/-- The text of a test, as a condition spells it. -/
def text : FieldTest → String
  | truthy p => p.text
  | compare p c literal => p.text ++ " " ++ c.symbol ++ " " ++ literal.text

/-- The test that an atom of a condition's text stands for: any path will do. -/
def resolver : Condition.Resolver FieldTest where
  field path := (FieldPath.parse path).toOption.map truthy
  comparison path c literal := (FieldPath.parse path).toOption.map (compare · c literal)

end FieldTest

/-- A condition on fields. -/
abbrev FieldCondition := Condition FieldTest

namespace FieldCondition

/-- The condition on fields that a text spells. -/
def read (text : String) : Except Condition.SyntaxError FieldCondition :=
  Condition.read FieldTest.resolver text

/-- The text of a condition on fields. -/
def text (c : FieldCondition) : String := c.render FieldTest.text

end FieldCondition

end Verdict
