/-
  Conformance — which values fit a declared type.

  1. **Types** — `accepts` a type where another is declared: equal scalar types, an integer where a
     float is declared, and records with the SAME fields, each accepted; order plays no part.

  2. **Values** — `Shape.check` walks a record along its shape and reports the first violation:
     declared fields in order of declaration, depth first, and only then the first field that the
     shape does not declare, in order of names.

  3. **Widening** — `ValueType.coerce` turns an integer under a float declaration into a float, at
     every level, and changes nothing else.

  Core only.
-/
import Verdict.Shape.Basic

namespace Verdict

/-! ## Types where types are declared -/

mutual

/-- May a value of type `source` stand where this type is declared? -/
def ValueType.acceptsType : ValueType → (source : ValueType) → Bool
  | .scalar t, .scalar u => t.takes u
  | .record s, .record u => s.length == u.length && s.acceptsFields u
  | _, _ => false

/-- Does every field of this shape accept the field of `source` with its name? -/
def Shape.acceptsFields : Shape → (source : Shape) → Bool
  | .nil, _ => true
  | .cons n t rest, source =>
      (match source.type? n with
        | some u => t.acceptsType u
        | none => false) && rest.acceptsFields source

end

/-! ## Records against shapes -/

/-- How a record fails a shape; the path leads to the field. -/
inductive ShapeViolation where
  | missingField (path : List String)
  | unexpectedField (path : List String)
  | typeMismatch (path : List String) (expected : ValueType) (found : Kind)

/-- A path of field names with dots between; an empty name at its beginning leaves no trace. -/
def dotted (path : List String) : String :=
  path.foldl (fun text name => if text.isEmpty then name else text ++ "." ++ name) ""

/-- The report of a violation. -/
def ShapeViolation.message : ShapeViolation → String
  | missingField path => "missing field `" ++ dotted path ++ "`"
  | unexpectedField path => "unexpected field `" ++ dotted path ++ "`"
  | typeMismatch path expected found =>
      "field `" ++ dotted path ++ "` expected " ++ expected.text ++ ", found " ++ found.name

/-- The first field of a record, in order of names, that a shape does not declare. -/
def Shape.undeclared? (s : Shape) : Record → Option String
  | .nil => none
  | .cons n _ rest => if (s.type? n).isNone then some n else s.undeclared? rest

mutual

/-- Checks a value found at `path` against this type. -/
def ValueType.checkAt (path : List String) : ValueType → Value → Except ShapeViolation Unit
  | .record s, .record r => do
      s.checkFields path r
      match s.undeclared? r with
      | some n => throw (.unexpectedField (path ++ [n]))
      | none => pure ()
  | t, v =>
      if t.acceptsType (ValueType.of v) then pure ()
      else throw (.typeMismatch path t v.kind)

/-- Checks the declared fields of a record found at `path`, in order of declaration. -/
def Shape.checkFields (path : List String) : Shape → Record → Except ShapeViolation Unit
  | .nil, _ => pure ()
  | .cons n t rest, r =>
      match r.get? n with
      | none => throw (.missingField (path ++ [n]))
      | some v => do
          t.checkAt (path ++ [n]) v
          rest.checkFields path r

end

/-- Checks that a record has exactly the declared fields, with conforming values. -/
def Shape.check (s : Shape) (r : Record) : Except ShapeViolation Unit :=
  (ValueType.record s).checkAt [] (.record r)

/-- Does a value conform to this type? -/
def ValueType.accepts : ValueType → Value → Bool
  | .record s, .record r => (s.check r).isOk
  | t, v => t.acceptsType (ValueType.of v)

/-! ## Widening -/

mutual

/-- A value as it is stored where `declared` stands. -/
def Value.widenTo (declared : ValueType) : Value → Value
  | .scalar s =>
      match declared with
      | .scalar t => .scalar (s.widenTo t)
      | .record _ => .scalar s
  | .record r =>
      match declared with
      | .scalar _ => .record r
      | .record shape => .record (r.widenTo shape)

/-- A record as it is stored where `shape` is declared; undeclared fields stay as they are. -/
def Record.widenTo (shape : Shape) : Record → Record
  | .nil => .nil
  | .cons n v rest =>
      let v' := match shape.type? n with
        | some t => v.widenTo t
        | none => v
      .cons n v' (rest.widenTo shape)

end

/-- A value with its integers widened where this type declares floats. -/
def ValueType.coerce (declared : ValueType) (v : Value) : Value := v.widenTo declared

end Verdict
