/-
  Names and field paths — what a condition can refer to.

  1. **Names** — the grammar of identifiers is `[A-Za-z_][A-Za-z0-9_]*` without the five words that
     the condition language keeps for itself.  Names of fields, steps, rules and definitions are
     plain strings until a definition is admitted; admission is where `isIdentifier` is asked of
     them.

  2. **Paths** — a `FieldPath` is a name with further names behind it, and these are any strings.
     `FieldPath.field` asks NOTHING of its name, so there are paths that no condition can spell;
     whether a path leads anywhere is asked when a definition is admitted.

  3. **Program** — `FieldPath.parse` splits a text at its dots and wants an identifier in every
     place; `FieldPath.text` puts the dots back.

  Core only.
-/
import Verdict.Text.Split

namespace Verdict

/-! ## Identifiers -/

/-- The words of the condition language; they name no field and no step. -/
def reservedWords : List String := ["and", "or", "not", "true", "false"]

/-- May `c` begin a name? -/
def startsName (c : Char) : Bool :=
  ('a' ≤ c && c ≤ 'z') || ('A' ≤ c && c ≤ 'Z') || c == '_'

/-- May `c` stand inside a name? -/
def continuesName (c : Char) : Bool :=
  startsName c || ('0' ≤ c && c ≤ '9')

/-- Does `s` fit the grammar of names, reserved words included? -/
def isWord (s : String) : Bool :=
  match s.toList with
  | [] => false
  | c :: cs => startsName c && cs.all continuesName

/-- Can a condition refer to something called `s`? -/
def isIdentifier (s : String) : Bool :=
  isWord s && !reservedWords.contains s

/-! ## Field paths -/

/-- A name along a path: any string, be it an identifier or not. -/
structure FieldName where
  text : String
  deriving DecidableEq

/-- A dotted path to a field: `zone`, `check_access.level`. -/
structure FieldPath where
  head : FieldName
  rest : List FieldName
  deriving DecidableEq

/-- A text that is no field path. -/
structure InvalidFieldPath where
  text : String
  deriving DecidableEq

/-- The report of a text that is no field path. -/
def InvalidFieldPath.message (e : InvalidFieldPath) : String :=
  "invalid field path `" ++ e.text ++ "`"

namespace FieldPath

/-- The path that is one name, whatever the name is. -/
def field (name : String) : FieldPath := ⟨⟨name⟩, []⟩

/-- The path that a text spells. -/
def parse (s : String) : Except InvalidFieldPath FieldPath :=
  match (Text.splitAt '.' s.toList).map String.ofList with
  | head :: rest =>
      if (head :: rest).all isIdentifier then .ok ⟨⟨head⟩, rest.map FieldName.mk⟩ else .error ⟨s⟩
  | [] => .error ⟨s⟩

/-- The names along a path after the first. -/
def restNames (p : FieldPath) : List String := p.rest.map FieldName.text

/-- The names along a path. -/
def names (p : FieldPath) : List String := p.head.text :: p.restNames

/-- A path as it is written in a condition. -/
def text (p : FieldPath) : String := ".".intercalate p.names

end FieldPath

end Verdict
