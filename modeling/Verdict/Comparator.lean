/-
  Comparators — the six operators between a field and a literal.

  1. **Data** — `==`, `!=` and the four ordering operators.

  2. **Program** — a comparator does not compare: it is asked whether it `holds` of an OUTCOME.
     Two numbers stand in one of three orders or, when one of them is not a number, in none;
     in that last case only `!=` holds.

  Core only.
-/

namespace Verdict

/-- An operator between a field and a literal. -/
inductive Comparator where
  | equals
  | notEquals
  | lessThan
  | lessThanOrEqual
  | greaterThan
  | greaterThanOrEqual
  deriving DecidableEq, Repr

namespace Comparator

/-- The operator as it is written in a condition. -/
def symbol : Comparator → String
  | equals => "=="
  | notEquals => "!="
  | lessThan => "<"
  | lessThanOrEqual => "<="
  | greaterThan => ">"
  | greaterThanOrEqual => ">="

/-- The operator's name in serialized conditions. -/
def name : Comparator → String
  | equals => "equals"
  | notEquals => "not_equals"
  | lessThan => "less_than"
  | lessThanOrEqual => "less_than_or_equal"
  | greaterThan => "greater_than"
  | greaterThanOrEqual => "greater_than_or_equal"

/-- All comparators. -/
def all : List Comparator :=
  [equals, notEquals, lessThan, lessThanOrEqual, greaterThan, greaterThanOrEqual]

/-- The comparator with a given serialized name. -/
def ofName? (s : String) : Option Comparator := all.find? (·.name == s)

/-- Does the comparator need its operands to be ordered? -/
def isOrdering : Comparator → Bool
  | equals | notEquals => false
  | _ => true

/-- Does the comparator hold of operands in the given order? -/
def holdsOf : Comparator → Ordering → Bool
  | equals, o => o.isEq
  | notEquals, o => o.isNe
  | lessThan, o => o.isLT
  | lessThanOrEqual, o => o.isLE
  | greaterThan, o => o.isGT
  | greaterThanOrEqual, o => o.isGE

/-- Does the comparator hold of operands whose order, if there is one, is given? -/
def holds (c : Comparator) : Option Ordering → Bool
  | some o => c.holdsOf o
  | none => c == notEquals

end Comparator

end Verdict
