/-
  TOML — documents made of strings, integers and tables.

  OUTER LAYER.  Like the trees that it builds, this reader stands in for the one that a program
  brings along; no theorem is about it.

  1. **Subset** — everything of TOML that has to do with these three: comments, bare, quoted and
     dotted keys, headers, tables between braces, the four sorts of strings with all escapes, and
     integers in four bases.  A document with any other value is REFUSED: nothing that is read
     from a document here has such values.

  2. **Program** — every reader takes characters from the front and returns the rest, or `none`.
     A document is a row of statements; each takes at least one character, so there are no more
     of them than characters, and that number bounds the loops.

  Core only.
-/
import Verdict.Decimal.Digits
import Verdict.Text.Split
import Verdict.Outer.Toml.Node

namespace Verdict.Toml

/-! ## Blanks and comments -/

/-- May `c` stand in strings and comments only as an escape? -/
def isControl (c : Char) : Bool := (c.toNat < 0x20 && c != '\t') || c.toNat == 0x7F

/-- Takes spaces and tabs off. -/
def skipSpace (cs : List Char) : List Char := cs.dropWhile fun c => c == ' ' || c == '\t'

/-- Takes blanks, line breaks and comments off; a comment ends where its line ends. -/
def skipBlank : (inComment : Bool) → List Char → Option (List Char)
  | _, [] => some []
  | _, '\n' :: cs => skipBlank false cs
  | _, '\r' :: '\n' :: cs => skipBlank false cs
  | true, c :: cs => if isControl c then none else skipBlank true cs
  | false, ' ' :: cs => skipBlank false cs
  | false, '\t' :: cs => skipBlank false cs
  | false, '#' :: cs => skipBlank true cs
  | false, cs => some cs

/-- Does a line end here? -/
def atBreak : List Char → Bool
  | '\n' :: _ | '\r' :: '\n' :: _ => true
  | _ => false

/-- Goes on only if nothing but blanks and a comment is left of the line. -/
def lineEnd (cs : List Char) : Option (List Char) :=
  match skipSpace cs with
  | [] => some []
  | '#' :: rest => some ('#' :: rest)
  | rest => if atBreak rest then some rest else none

/-! ## Strings -/

/-- The value of a digit in bases up to sixteen. -/
def digit? (c : Char) : Option Nat :=
  if '0' ≤ c ∧ c ≤ '9' then some (c.toNat - '0'.toNat)
  else if 'a' ≤ c ∧ c ≤ 'f' then some (c.toNat - 'a'.toNat + 10)
  else if 'A' ≤ c ∧ c ≤ 'F' then some (c.toNat - 'A'.toNat + 10)
  else none

/-- The number with the given digits, if it fits 64 bits. -/
def natural? (base : Nat) (digits : List Char) : Option Nat :=
  digits.foldlM
    (fun n c =>
      match digit? c with
      | none => none
      | some d => if d < base ∧ n * base + d < UInt64.size then some (n * base + d) else none)
    0

/-- The character with the given number. -/
def character? (n : Nat) : Option Char :=
  if n.isValidChar then some (Char.ofNat n) else none

/-- The character with the given hexadecimal digits. -/
def hexCharacter? (digits : List Char) : Option Char := (natural? 16 digits).bind character?

/-- The character that a single letter stands for behind a backslash. -/
def escaped? : Char → Option Char
  | 'b' => some '\x08'
  | 't' => some '\t'
  | 'n' => some '\n'
  | 'f' => some '\x0c'
  | 'r' => some '\r'
  | 'e' => some '\x1b'
  | '"' => some '"'
  | '\\' => some '\\'
  | _ => none

/-- Reads a string with escapes up to its closing quotes, three of them if it may have several
    lines.  Line breaks stand in it as they are written; behind a backslash that ends a line, all
    blanks up to the next other character are dropped (`trimming`).  `done` holds what was read,
    last character first. -/
def basicString (lines : Bool) :
    (trimming : Bool) → (done : List Char) → List Char → Option (String × List Char)
  | _, _, [] => none
  | true, done, ' ' :: cs => basicString lines true done cs
  | true, done, '\t' :: cs => basicString lines true done cs
  | true, done, '\n' :: cs => basicString lines true done cs
  | true, done, '\r' :: '\n' :: cs => basicString lines true done cs
  | _, done, '\\' :: 'u' :: a :: b :: c :: d :: cs =>
      match hexCharacter? [a, b, c, d] with
      | some x => basicString lines false (x :: done) cs
      | none => none
  | _, done, '\\' :: 'U' :: a :: b :: c :: d :: e :: f :: g :: h :: cs =>
      match hexCharacter? [a, b, c, d, e, f, g, h] with
      | some x => basicString lines false (x :: done) cs
      | none => none
  | _, done, '\\' :: 'x' :: a :: b :: cs =>
      match hexCharacter? [a, b] with
      | some x => basicString lines false (x :: done) cs
      | none => none
  | _, done, '\\' :: c :: cs =>
      match escaped? c with
      | some x => basicString lines false (x :: done) cs
      | none =>
          if lines && atBreak (skipSpace (c :: cs)) then basicString lines true done (c :: cs)
          else none
  | _, done, '"' :: cs =>
      if lines then
        match cs with
        | '"' :: '"' :: '"' :: '"' :: rest =>
            some (String.ofList ('"' :: '"' :: done).reverse, rest)
        | '"' :: '"' :: '"' :: rest => some (String.ofList ('"' :: done).reverse, rest)
        | '"' :: '"' :: rest => some (String.ofList done.reverse, rest)
        | cs => basicString lines false ('"' :: done) cs
      else some (String.ofList done.reverse, cs)
  | _, done, '\r' :: '\n' :: cs =>
      if lines then basicString lines false ('\n' :: '\r' :: done) cs else none
  | _, done, c :: cs =>
      if c = '\n' then if lines then basicString lines false ('\n' :: done) cs else none
      else if isControl c then none
      else basicString lines false (c :: done) cs

/-- Reads a string without escapes up to its closing quotes, three of them if it may have several
    lines, whose breaks stand in it as they are written.  `done` holds what was read, last
    character first. -/
def literalString (lines : Bool) :
    (done : List Char) → List Char → Option (String × List Char)
  | _, [] => none
  | done, '\x27' :: cs =>
      if lines then
        match cs with
        | '\x27' :: '\x27' :: '\x27' :: '\x27' :: rest =>
            some (String.ofList ('\x27' :: '\x27' :: done).reverse, rest)
        | '\x27' :: '\x27' :: '\x27' :: rest => some (String.ofList ('\x27' :: done).reverse, rest)
        | '\x27' :: '\x27' :: rest => some (String.ofList done.reverse, rest)
        | cs => literalString lines ('\x27' :: done) cs
      else some (String.ofList done.reverse, cs)
  | done, '\r' :: '\n' :: cs =>
      if lines then literalString lines ('\n' :: '\r' :: done) cs else none
  | done, c :: cs =>
      if c = '\n' then if lines then literalString lines ('\n' :: done) cs else none
      else if isControl c then none
      else literalString lines (c :: done) cs

/-- Takes the line break off that may follow the opening quotes of a string with lines. -/
def skipBreak : List Char → List Char
  | '\n' :: cs => cs
  | '\r' :: '\n' :: cs => cs
  | cs => cs

/-! ## Integers -/

/-- The number with the given digits, where single underscores may stand between digits. -/
def spacedNatural? (base : Nat) (digits : List Char) : Option Nat :=
  let pieces := Text.splitAt '_' digits
  if pieces.any List.isEmpty then none else natural? base pieces.flatten

/-- The number with the given decimal digits; none but zero begins with a zero. -/
def decimal? (digits : List Char) : Option Nat :=
  match digits with
  | '0' :: _ :: _ => none
  | digits => spacedNatural? 10 digits

/-- The integer that a word is; only decimal ones may have a sign. -/
def integer? : List Char → Option Int
  | '0' :: 'x' :: digits => (spacedNatural? 16 digits).map Int.ofNat
  | '0' :: 'o' :: digits => (spacedNatural? 8 digits).map Int.ofNat
  | '0' :: 'b' :: digits => (spacedNatural? 2 digits).map Int.ofNat
  | '+' :: digits => (decimal? digits).map Int.ofNat
  | '-' :: digits => (decimal? digits).map fun n => -(n : Int)
  | digits => (decimal? digits).map Int.ofNat

/-! ## Keys -/

/-- May `c` stand in a key without quotes? -/
def isKeyChar (c : Char) : Bool :=
  ('a' ≤ c && c ≤ 'z') || ('A' ≤ c && c ≤ 'Z') || Decimal.isDigit c || c == '_' || c == '-'

/-- Reads a key without dots. -/
def simpleKey : List Char → Option (String × List Char)
  | '"' :: cs => basicString false false [] cs
  | '\x27' :: cs => literalString false [] cs
  | cs =>
      let key := cs.takeWhile isKeyChar
      if key.isEmpty then none else some (String.ofList key, cs.dropWhile isKeyChar)

/-- Reads a key of at most `bound` parts with dots between them, and the blanks behind it. -/
def dottedKey : (bound : Nat) → List Char → Option (List String × List Char)
  | 0, _ => none
  | bound + 1, cs => do
      let (k, cs) ← simpleKey cs
      match skipSpace cs with
      | '.' :: cs =>
          let (ks, cs) ← dottedKey bound (skipSpace cs)
          return (k :: ks, cs)
      | cs => return ([k], cs)

/-! ## Values -/

/-- Reads a key and its value; `gap` takes off what may stand on either side of the sign between
    them. -/
def assignment (bound : Nat) (gap : List Char → Option (List Char))
    (value : List Char → Option (Node × List Char)) (cs : List Char) :
    Option ((List String × Node) × List Char) := do
  let (key, cs) ← dottedKey bound cs
  match ← gap cs with
  | '=' :: cs =>
      let (node, cs) ← value (← gap cs)
      return ((key, node), cs)
  | _ => none

/-- Reads what a table between braces defines, at most `bound` entries, and the closing brace.
    Line breaks and comments may stand between any two of its signs, keys and values. -/
def entries (keyBound : Nat) (value : List Char → Option (Node × List Char)) :
    (bound : Nat) → Parts → List Char → Option (Parts × List Char)
  | 0, _, _ => none
  | bound + 1, parts, cs => do
      match ← skipBlank false cs with
      | '\x7d' :: rest => return (parts, rest)
      | cs =>
          let ((key, node), cs) ← assignment keyBound (skipBlank false) value cs
          let parts ← parts.define key node
          match ← skipBlank false cs with
          | ',' :: rest => entries keyBound value bound parts rest
          | '\x7d' :: rest => return (parts, rest)
          | _ => none

/-- Reads a value in which braces may enclose one another at most `levels` deep. -/
def value (bound : Nat) : (levels : Nat) → List Char → Option (Node × List Char)
  | _, '"' :: '"' :: '"' :: cs =>
      (basicString true false [] (skipBreak cs)).map fun (s, rest) => (.str s, rest)
  | _, '"' :: cs => (basicString false false [] cs).map fun (s, rest) => (.str s, rest)
  | _, '\x27' :: '\x27' :: '\x27' :: cs =>
      (literalString true [] (skipBreak cs)).map fun (s, rest) => (.str s, rest)
  | _, '\x27' :: cs => (literalString false [] cs).map fun (s, rest) => (.str s, rest)
  | 0, '\x7b' :: _ => none
  | levels + 1, '\x7b' :: cs =>
      (entries bound (value bound levels) bound [] cs).map fun (parts, rest) =>
        (.table .braces parts, rest)
  | _, cs =>
      let isWordChar := fun c => isKeyChar c || c == '+'
      (integer? (cs.takeWhile isWordChar)).map fun n => (.int n, cs.dropWhile isWordChar)

/-- How deep braces may enclose one another. -/
def maxNesting : Nat := 80

/-! ## Documents -/

/-- Reads statements, at most `bound`; `header` is the table that keys belong to. -/
def statements (keyBound : Nat) :
    (bound : Nat) → (header : List String) → Parts → List Char → Option Parts
  | 0, _, _, _ => none
  | bound + 1, header, parts, cs => do
      match ← skipBlank false cs with
      | [] => return parts
      | '[' :: cs =>
          let (key, cs) ← dottedKey keyBound (skipSpace cs)
          match cs with
          | ']' :: cs => statements keyBound bound key (← parts.openTable key) (← lineEnd cs)
          | _ => none
      | cs =>
          let ((key, node), cs) ←
            assignment keyBound (some ∘ skipSpace) (value keyBound maxNesting) cs
          let parts ← parts.inTable (·.define key node) header
          statements keyBound bound header parts (← lineEnd cs)

/-- The tree of a document; a byte order mark in front of it means nothing. -/
def read (text : String) : Option Form :=
  let cs :=
    match text.toList with
    | '\ufeff' :: cs => cs
    | cs => cs
  let bound := cs.length + 1
  (statements bound bound [] [] cs).map fun parts => (Node.table .header parts).toForm

end Verdict.Toml
