/-
  Scalars — the values without parts, and their four types.

  1. **Data** — a boolean, a 64-bit signed integer, a float or a string.  A literal in a condition
     is a scalar, and every value that is not a record is one.

  2. **Program** — the text of a scalar, its type, and the ONE widening there is: an integer may
     stand where a float is wanted, and becomes the nearest float there.

  3. **Order** — two integers compare exactly; an integer and a float compare as floats.  Strings
     and booleans compare for equality alone.  Scalars of different kinds do not compare at all,
     so that not even `!=` holds between them.

  Core only.
-/
import Verdict.Comparator
import Verdict.Decimal.Shortest
import Verdict.Text.Quoted

namespace Verdict

/-! ## Types of scalars -/

/-- The type of a scalar. -/
inductive ScalarType where
  | bool
  | int
  | float
  | str
  deriving DecidableEq, Repr

namespace ScalarType

/-- The name of a scalar type, in messages and in serialized form. -/
def name : ScalarType → String
  | bool => "bool"
  | int => "int"
  | float => "float"
  | str => "str"

/-- The scalar type with a given name. -/
def ofName? (s : String) : Option ScalarType :=
  [bool, int, float, str].find? (·.name == s)

/-- Are the scalars of this type numbers? -/
def isNumeric : ScalarType → Bool
  | int | float => true
  | bool | str => false

/-- May a scalar of type `source` stand where `declared` is wanted?  Floats take integers. -/
def takes (declared source : ScalarType) : Bool :=
  declared == source || (declared == float && source == int)

end ScalarType

/-! ## Scalars -/

/-- A value without parts. -/
inductive Scalar where
  | bool (b : Bool)
  | int (n : Int64)
  | float (x : Float)
  | str (s : String)

namespace Scalar

/-- Equality of scalars of one type; floats compare as numbers, so that a float that is not a
    number differs from itself. -/
def beq : Scalar → Scalar → Bool
  | bool a, bool b => a == b
  | int a, int b => a == b
  | float a, float b => a == b
  | str a, str b => a == b
  | _, _ => false

instance : BEq Scalar := ⟨beq⟩

/-- The type of a scalar. -/
def type : Scalar → ScalarType
  | bool _ => .bool
  | int _ => .int
  | float _ => .float
  | str _ => .str

/-- Is the scalar a number? -/
def isNumeric (s : Scalar) : Bool := s.type.isNumeric

/-- The number that a numeric scalar is, as a float. -/
def toFloat? : Scalar → Option Float
  | int n => some (Decimal.ofInt n.toInt)
  | float x => some x
  | bool _ | str _ => none

/-- The string that a scalar holds, if it holds one. -/
def toStr? : Scalar → Option String
  | str s => some s
  | _ => none

/-- The text of a scalar, as a condition spells it. -/
def text : Scalar → String
  | bool b => if b then "true" else "false"
  | int n => String.ofList (Decimal.integer n.toInt)
  | float x => Decimal.text x
  | str s => Text.quote s

/-- A scalar where `declared` is wanted: an integer widens to a float, nothing else changes. -/
def widenTo (declared : ScalarType) : Scalar → Scalar
  | int n => if declared = .float then float (Decimal.ofInt n.toInt) else int n
  | s => s

/-! ## Comparing -/

/-- The order of two floats; there is none when one of them is not a number. -/
def floatOrder (x y : Float) : Option Ordering :=
  if x < y then some .lt
  else if x == y then some .eq
  else if y < x then some .gt
  else none

/-- Does the comparator hold between a scalar and a literal? -/
def compares (c : Comparator) : (left right : Scalar) → Bool
  | int m, int n => c.holdsOf (compare m.toInt n.toInt)
  | bool a, bool b => !c.isOrdering && c.holdsOf (if a = b then .eq else .lt)
  | str a, str b => !c.isOrdering && c.holdsOf (if a = b then .eq else .lt)
  | left, right =>
      match left.toFloat?, right.toFloat? with
      | some x, some y => c.holds (floatOrder x y)
      | _, _ => false

end Scalar

end Verdict
