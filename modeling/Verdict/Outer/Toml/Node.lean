/-
  TOML trees — what a document has defined so far.

  OUTER LAYER.  A program brings its own reader of documents along; this one stands in for it, so
  that settings can be loaded.  Nothing is proved about it, and nothing that is proved depends on
  it: the theory of settings is about any reader of documents.

  1. **Data** — strings, integers and tables.  A table remembers how it came about: by a header, as
     the parent in somebody else's header, by a dotted key, or between braces.

  2. **Once only** — no key is defined twice, and a table is only ever added to in the way in which
     it came about.  A table between braces is closed; a header may turn a mere parent into a
     table of its own; sub-tables may be opened below any table that is not closed.

  Core only.
-/
import Verdict.Form.Basic

namespace Verdict.Toml

/-- How a table came about. -/
inductive Origin where
  | parent
  | header
  | dotted
  | braces
  deriving DecidableEq, Repr

/-- A value of a document. -/
inductive Node where
  | str (s : String)
  | int (n : Int)
  | table (origin : Origin) (parts : List (String × Node))

/-- The keys of a table with their values, in order of definition. -/
abbrev Parts := List (String × Node)

/-- The value of a key. -/
def Parts.get? (parts : Parts) (key : String) : Option Node :=
  (parts.find? (·.1 == key)).map (·.2)

/-- Gives a key a value: in the place it has, or at the end. -/
def Parts.set (parts : Parts) (key : String) (node : Node) : Parts :=
  match parts with
  | [] => [(key, node)]
  | (k, n) :: rest =>
      if k = key then (key, node) :: rest else (k, n) :: Parts.set rest key node

/-- Defines a dotted key. -/
def Parts.define : (key : List String) → Node → Parts → Option Parts
  | [], _, _ => none
  | [k], node, parts =>
      match parts.get? k with
      | none => some (parts.set k node)
      | some _ => none
  | k :: ks, node, parts =>
      match parts.get? k with
      | none => (Parts.define ks node []).map fun inner => parts.set k (.table .dotted inner)
      | some (.table .dotted inner) =>
          (Parts.define ks node inner).map fun inner => parts.set k (.table .dotted inner)
      | some _ => none

/-- Opens the table that a header names. -/
def Parts.openTable : (key : List String) → Parts → Option Parts
  | [], _ => none
  | [k], parts =>
      match parts.get? k with
      | none => some (parts.set k (.table .header []))
      | some (.table .parent inner) => some (parts.set k (.table .header inner))
      | some _ => none
  | k :: ks, parts =>
      match parts.get? k with
      | none => (Parts.openTable ks []).map fun inner => parts.set k (.table .parent inner)
      | some (.table .braces _) => none
      | some (.table origin inner) =>
          (Parts.openTable ks inner).map fun inner => parts.set k (.table origin inner)
      | some _ => none

/-- Changes the table that was opened under a header. -/
def Parts.inTable (change : Parts → Option Parts) : (key : List String) → Parts → Option Parts
  | [], parts => change parts
  | k :: ks, parts =>
      match parts.get? k with
      | some (.table origin inner) =>
          (Parts.inTable change ks inner).map fun inner => parts.set k (.table origin inner)
      | _ => none

mutual

/-- A value without its history. -/
def Node.toForm : Node → Form
  | .str s => .str s
  | .int n => .int n
  | .table _ parts => .object (formParts parts)

/-- The values of a table without their history. -/
def formParts : List (String × Node) → List (String × Form)
  | [] => []
  | (k, n) :: rest => (k, n.toForm) :: formParts rest

end

end Verdict.Toml
