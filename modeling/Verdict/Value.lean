/-
  Values and records — what flows through tables and flows.

  1. **Data** — a value is a scalar or a record; a record is a row of named values.  The two types
     are mutual, so every function on values below recurses on the data.

  2. **Order** — the fields of a record stand in ascending order of their names, by code point,
     each name once.  `insert` keeps that order (`Record.Ordered`), and every record that is read
     or built here goes through `insert`.

  3. **View** — a record is looked at through `get?`.

  Core only.
-/
import Verdict.Name
import Verdict.Scalar

namespace Verdict

mutual

/-- A scalar, or a record of named values. -/
inductive Value where
  | scalar (s : Scalar)
  | record (r : Record)

/-- A row of named values. -/
inductive Record where
  | nil
  | cons (name : String) (value : Value) (rest : Record)

end

/-- What sort of value a message speaks of. -/
inductive Kind where
  | scalar (t : ScalarType)
  | record
  deriving DecidableEq

/-- The name of a kind. -/
def Kind.name : Kind → String
  | scalar t => t.name
  | record => "record"

namespace Record

/-! ## Fields of a record -/

/-- The value of a field. -/
def get? : Record → String → Option Value
  | nil, _ => none
  | cons n v rest, name => if n = name then some v else rest.get? name

/-- The record with the field `name` holding `value`, whatever it held before. -/
def insert (name : String) (value : Value) : Record → Record
  | nil => cons name value nil
  | cons n v rest =>
      if name < n then cons name value (cons n v rest)
      else if name = n then cons n value rest
      else cons n v (rest.insert name value)

/-- The fields in order of their names. -/
def toList : Record → List (String × Value)
  | nil => []
  | cons n v rest => (n, v) :: rest.toList

/-- The record with the given fields; of two fields of one name the later one counts. -/
def ofList (fields : List (String × Value)) : Record :=
  fields.foldl (fun r f => r.insert f.1 f.2) nil

/-- The names of the fields. -/
def names (r : Record) : List String := r.toList.map (·.1)

/-- How many fields there are. -/
def length : Record → Nat
  | nil => 0
  | cons _ _ rest => rest.length + 1

end Record

/-! ## Equality -/

mutual

/-- Equality of values, with floats compared as numbers. -/
def Value.beq : Value → Value → Bool
  | .scalar a, .scalar b => a == b
  | .record r, .record q => r.beq q
  | _, _ => false

/-- Equality of records, field by field. -/
def Record.beq : Record → Record → Bool
  | .nil, .nil => true
  | .cons n v rest, .cons m w others => n == m && v.beq w && rest.beq others
  | _, _ => false

end

instance : BEq Value := ⟨Value.beq⟩

instance : BEq Record := ⟨Record.beq⟩

/-! ## Values -/

namespace Value

/-- The kind of a value. -/
def kind : Value → Kind
  | scalar s => .scalar s.type
  | record _ => .record

/-- The number that a numeric value is, as a float. -/
def toFloat? : Value → Option Float
  | scalar s => s.toFloat?
  | record _ => none

/-- The string that a value holds, if it holds one. -/
def toStr? : Value → Option String
  | scalar s => s.toStr?
  | record _ => none

/-- The value at the end of a path of field names; the empty path ends where it begins. -/
def at? : Value → List String → Option Value
  | v, [] => some v
  | scalar _, _ :: _ => none
  | record r, name :: path => (r.get? name).bind (·.at? path)

end Value

/-- The value at the end of a path of field names; in a record the empty path leads nowhere. -/
def Record.at? (r : Record) : List String → Option Value
  | [] => none
  | name :: path => (r.get? name).bind (·.at? path)

/-- The value that a record holds at a field path. -/
def Record.lookup (r : Record) (p : FieldPath) : Option Value := r.at? p.names

mutual

/-- The text of a value. -/
def Value.text : Value → String
  | .scalar s => s.text
  | .record r => "\x7b" ++ ", ".intercalate r.fieldTexts ++ "\x7d"

/-- The texts of the fields of a record, each with its name. -/
def Record.fieldTexts : Record → List String
  | .nil => []
  | .cons n v rest => (n ++ ": " ++ v.text) :: rest.fieldTexts

end

/-- The text of a record: its fields between braces. -/
def Record.text (r : Record) : String := (Value.record r).text

/-! ## The order of names -/

mutual

/-- Are the records inside a value in order, at every level? -/
def Value.Ordered : Value → Prop
  | .scalar _ => True
  | .record r => r.Ordered

/-- Do the names of a record ascend, here and in every record inside it? -/
def Record.Ordered : Record → Prop
  | .nil => True
  | .cons n v rest => v.Ordered ∧ (∀ m ∈ rest.names, n < m) ∧ rest.Ordered

end

end Verdict
