/-
  Forms — the trees that definitions and values are serialized to.

  1. **Data** — null, booleans, integers, floats, strings, rows, and objects with named parts.  An
     INTEGER AND A FLOAT STAY DIFFERENT, also where the float has no fraction.

  2. **Reading** — every reader below and in the neighbouring modules returns `none` for a form it
     does not know; why, it does not say.  An object is asked for its parts by name, and parts
     that nobody asks for are ignored.  A part that may be missing may also be null.

  Core only.
-/

namespace Verdict

/-- A serialized tree. -/
inductive Form where
  | null
  | bool (b : Bool)
  | int (n : Int)
  | float (x : Float)
  | str (s : String)
  | list (items : List Form)
  | object (parts : List (String × Form))

namespace Form

/-- A part of an object: the first one of its name. -/
def part? (parts : List (String × Form)) (name : String) : Option Form :=
  (parts.find? (·.1 == name)).map (·.2)

/-- The parts of an object. -/
def parts? : Form → Option (List (String × Form))
  | object parts => some parts
  | _ => none

/-- The entries of a row. -/
def items? : Form → Option (List Form)
  | list items => some items
  | _ => none

/-- The string that a form is. -/
def str? : Form → Option String
  | str s => some s
  | _ => none

/-- The natural number of 64 bits that a form is. -/
def natural? : Form → Option Nat
  | int n => if 0 ≤ n ∧ n < UInt64.size then some n.toNat else none
  | _ => none

/-- Reads a part that has to be there. -/
def required {α : Type} (read : Form → Option α) (parts : List (String × Form)) (name : String) :
    Option α :=
  (part? parts name).bind read

/-- Reads a part that may be missing or null. -/
def optional {α : Type} (read : Form → Option α) (parts : List (String × Form)) (name : String) :
    Option (Option α) :=
  match part? parts name with
  | none | some null => some none
  | some form => (read form).map some

/-- The form of a part that is left out when there is nothing to say. -/
def unlessNone {α : Type} (write : α → Form) (name : String) : Option α → List (String × Form)
  | none => []
  | some x => [(name, write x)]

end Form

end Verdict
