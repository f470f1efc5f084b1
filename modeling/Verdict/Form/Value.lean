/-
  Forms of values and types.

  1. **Values** — a value is written without a tag: a boolean, a number or a string stands for
     itself, and an object is a record.  An integer that does not fit 64 bits is read as the
     nearest float.  A float that is no number or not finite is written as null, which is no value.

  2. **Types** — a scalar type is its name, a record type an object with the one part `record`, and
     a shape a row of objects with a name and a type.

  Core only.
-/
import Verdict.Form.Basic
import Verdict.Shape.Basic

namespace Verdict

/-! ## Values -/

/-- The form of a float: null unless it is finite. -/
def Form.ofFloat (x : Float) : Form := if Decimal.isFinite x then .float x else .null

/-- The float that a form is; an integer will do. -/
def Form.float? : Form → Option Float
  | int n => some (Decimal.ofInt n)
  | float x => some x
  | _ => none

namespace Scalar

/-- The form of a scalar. -/
def toForm : Scalar → Form
  | bool b => .bool b
  | int n => .int n.toInt
  | float x => .ofFloat x
  | str s => .str s

/-- The scalar that a form is. -/
def ofForm? : Form → Option Scalar
  | .bool b => some (bool b)
  | .int n =>
      if Int64.minValue.toInt ≤ n ∧ n ≤ Int64.maxValue.toInt then some (int (Int64.ofInt n))
      else some (float (Decimal.ofInt n))
  | .float x => some (float x)
  | .str s => some (str s)
  | .null | .list _ | .object _ => none

end Scalar

mutual

/-- The form of a value. -/
def Value.toForm : Value → Form
  | .scalar s => s.toForm
  | .record r => .object r.formParts

/-- The parts of the form of a record. -/
def Record.formParts : Record → List (String × Form)
  | .nil => []
  | .cons n v rest => (n, v.toForm) :: rest.formParts

end

mutual

/-- The value that a form is. -/
def Value.ofForm? : Form → Option Value
  | .object parts => (Record.withParts? .nil parts).map .record
  | form => (Scalar.ofForm? form).map .scalar

/-- The record with further fields, read from the parts of an object. -/
def Record.withParts? (r : Record) : List (String × Form) → Option Record
  | [] => some r
  | (n, form) :: parts =>
      match Value.ofForm? form with
      | some v => Record.withParts? (r.insert n v) parts
      | none => none

end

/-- The form of a record. -/
def Record.toForm (r : Record) : Form := .object r.formParts

/-- The record that a form is. -/
def Record.ofForm? (form : Form) : Option Record :=
  form.parts?.bind (Record.withParts? .nil)

/-! ## Types -/

mutual

/-- The form of a type. -/
def ValueType.toForm : ValueType → Form
  | .scalar t => .str t.name
  | .record s => .object [("record", .list s.formItems)]

/-- The entries of the form of a shape. -/
def Shape.formItems : Shape → List Form
  | .nil => []
  | .cons n t rest => .object [("name", .str n), ("type", t.toForm)] :: rest.formItems

end

mutual

/-- The type that a form is. -/
def ValueType.ofForm? : Form → Option ValueType
  | .str name => (ScalarType.ofName? name).map .scalar
  | .object [(tag, .list items)] =>
      if tag = "record" then (Shape.ofItems? items).map .record else none
  | _ => none

/-- The shape whose fields are the entries of a row. -/
def Shape.ofItems? : List Form → Option Shape
  | [] => some .nil
  | .object parts :: items =>
      match Form.required Form.str? parts "name", ValueType.ofParts? parts,
          Shape.ofItems? items with
      | some n, some t, some rest => some (.cons n t rest)
      | _, _, _ => none
  | _ :: _ => none

/-- The type that the part `type` of an object is. -/
def ValueType.ofParts? : List (String × Form) → Option ValueType
  | [] => none
  | (name, form) :: parts =>
      if name = "type" then ValueType.ofForm? form else ValueType.ofParts? parts

end

/-- The form of a shape. -/
def Shape.toForm (s : Shape) : Form := .list s.formItems

/-- The shape that a form is. -/
def Shape.ofForm? (form : Form) : Option Shape := form.items?.bind Shape.ofItems?

end Verdict
