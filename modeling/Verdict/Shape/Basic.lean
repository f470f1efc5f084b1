/-
  Value types and shapes — what a field, a table or a step declares.

  1. **Data** — a type is a scalar type or a record of declared fields; a SHAPE is the row of those
     fields in the order of their declaration.  Nothing keeps a shape from declaring a name twice
     or a name that is no identifier: `Shape.defect?` finds the first such place.

  2. **Program** — the text of types, the type of a value, and the type at the end of a path.

  Core only.
-/
import Verdict.Value

namespace Verdict

mutual

/-- A declared type. -/
inductive ValueType where
  | scalar (t : ScalarType)
  | record (shape : Shape)
  deriving DecidableEq

/-- The declared fields of a record, in order of declaration. -/
inductive Shape where
  | nil
  | cons (name : String) (type : ValueType) (rest : Shape)
  deriving DecidableEq

end

namespace Shape

/-! ## Fields of a shape -/

/-- The type of a field: the first declaration of its name counts. -/
def type? : Shape → String → Option ValueType
  | nil, _ => none
  | cons n t rest, name => if n = name then some t else rest.type? name

/-- The fields in order of declaration. -/
def toList : Shape → List (String × ValueType)
  | nil => []
  | cons n t rest => (n, t) :: rest.toList

/-- The shape with the given fields. -/
def ofList : List (String × ValueType) → Shape
  | [] => nil
  | (n, t) :: fields => cons n t (ofList fields)

/-- The names of the fields, in order of declaration. -/
def names (s : Shape) : List String := s.toList.map (·.1)

/-- How many fields are declared. -/
def length : Shape → Nat
  | nil => 0
  | cons _ _ rest => rest.length + 1

end Shape

namespace ValueType

abbrev bool : ValueType := scalar .bool
abbrev int : ValueType := scalar .int
abbrev float : ValueType := scalar .float
abbrev str : ValueType := scalar .str

/-- Are the values of this type numbers? -/
def isNumeric : ValueType → Bool
  | scalar t => t.isNumeric
  | record _ => false

/-- Is this the type of a value without parts? -/
def isScalar : ValueType → Bool
  | scalar _ => true
  | record _ => false

/-- The type at the end of a path of field names. -/
def at? : ValueType → List String → Option ValueType
  | t, [] => some t
  | scalar _, _ :: _ => none
  | record s, name :: path => (s.type? name).bind (·.at? path)

end ValueType

/-- The type that a shape declares at a field path. -/
def Shape.lookup (s : Shape) (p : FieldPath) : Option ValueType :=
  (s.type? p.head.text).bind (·.at? p.restNames)

/-! ## Texts -/

mutual

/-- The text of a type. -/
def ValueType.text : ValueType → String
  | .scalar t => t.name
  | .record s => "record\x7b" ++ ", ".intercalate s.fieldTexts ++ "\x7d"

/-- The texts of the fields of a shape, each a name and a type. -/
def Shape.fieldTexts : Shape → List String
  | .nil => []
  | .cons n t rest => (n ++ ": " ++ t.text) :: rest.fieldTexts

end

/-- The text of a shape: its fields between braces. -/
def Shape.text (s : Shape) : String :=
  "\x7b" ++ ", ".intercalate s.fieldTexts ++ "\x7d"

/-! ## The type of a value -/

mutual

/-- The type of a value: its own, with no widening. -/
def ValueType.of : Value → ValueType
  | .scalar s => .scalar s.type
  | .record r => .record (Shape.of r)

/-- The shape of a record, its fields in order of their names. -/
def Shape.of : Record → Shape
  | .nil => .nil
  | .cons n v rest => .cons n (ValueType.of v) (Shape.of rest)

end

/-! ## Defects of a shape -/

/-- What is wrong with a declared shape; the path leads to the field. -/
inductive ShapeDefect where
  | duplicateField (path : List String)
  | invalidFieldName (path : List String)
  deriving DecidableEq

/-- The same defect, seen from the record that has the field `parent`. -/
def ShapeDefect.under (parent : String) : ShapeDefect → ShapeDefect
  | duplicateField path => duplicateField (parent :: path)
  | invalidFieldName path => invalidFieldName (parent :: path)

mutual

/-- The first defect inside a type. -/
def ValueType.defect? : ValueType → Option ShapeDefect
  | .scalar _ => none
  | .record s => s.defectAfter? []

/-- The first defect of a shape whose fields come after fields called `earlier`: fields in order of
    declaration, and the fields inside a field before the next one. -/
def Shape.defectAfter? (earlier : List String) : Shape → Option ShapeDefect
  | .nil => none
  | .cons n t rest =>
      if !isIdentifier n then some (.invalidFieldName [n])
      else if earlier.contains n then some (.duplicateField [n])
      else match t.defect? with
        | some d => some (d.under n)
        | none => rest.defectAfter? (n :: earlier)

end

/-- The first defect of a shape. -/
def Shape.defect? (s : Shape) : Option ShapeDefect := s.defectAfter? []

end Verdict
