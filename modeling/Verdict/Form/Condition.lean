/-
  Forms of conditions.

  A node of a condition is an object with ONE part, whose name says what sort of node it is; a test
  is such an object again.  A path is a string, and only a string that spells a path is read.

  Core only.
-/
import Verdict.FieldTest
import Verdict.Form.Value

namespace Verdict

/-- The form of a path. -/
def FieldPath.toForm (p : FieldPath) : Form := .str p.text

/-- The path that a form is. -/
def FieldPath.ofForm? (form : Form) : Option FieldPath :=
  form.str?.bind fun s => (FieldPath.parse s).toOption

/-- The form of a comparator. -/
def Comparator.toForm (c : Comparator) : Form := .str c.name

/-- The comparator that a form is. -/
def Comparator.ofForm? (form : Form) : Option Comparator := form.str?.bind Comparator.ofName?

namespace FieldTest

/-- The form of a test. -/
def toForm : FieldTest → Form
  | truthy p => .object [("truthy", p.toForm)]
  | compare p c literal =>
      .object [("compare", .object
        [("path", p.toForm), ("comparator", c.toForm), ("literal", literal.toForm)])]

/-- The test that a form is. -/
def ofForm? : Form → Option FieldTest
  | .object [("truthy", form)] => (FieldPath.ofForm? form).map truthy
  | .object [("compare", .object parts)] => do
      let p ← Form.required FieldPath.ofForm? parts "path"
      let c ← Form.required Comparator.ofForm? parts "comparator"
      let literal ← Form.required Scalar.ofForm? parts "literal"
      return compare p c literal
  | _ => none

end FieldTest

namespace FieldCondition

mutual

/-- The form of a condition. -/
def toForm : FieldCondition → Form
  | .constant b => .object [("constant", .bool b)]
  | .all cs => .object [("and", .list (toForms cs))]
  | .any cs => .object [("or", .list (toForms cs))]
  | .not c => .object [("not", toForm c)]
  | .leaf t => .object [("predicate", t.toForm)]

/-- The forms of the conditions of a list. -/
def toForms : List FieldCondition → List Form
  | [] => []
  | c :: cs => toForm c :: toForms cs

end

mutual

/-- The condition that a form is. -/
def ofForm? : Form → Option FieldCondition
  | .object [("constant", .bool b)] => some (.constant b)
  | .object [("and", .list forms)] => (ofForms? forms).map .all
  | .object [("or", .list forms)] => (ofForms? forms).map .any
  | .object [("not", form)] => (ofForm? form).map .not
  | .object [("predicate", form)] => (FieldTest.ofForm? form).map .leaf
  | _ => none

/-- The conditions that the entries of a row are. -/
def ofForms? : List Form → Option (List FieldCondition)
  | [] => some []
  | form :: forms =>
      match ofForm? form, ofForms? forms with
      | some c, some cs => some (c :: cs)
      | _, _ => none

end

end FieldCondition

end Verdict
