/-
  Bytewise scan — the tokens of a text read from its BYTES.

  1. **Program** — `Bytewise.scan` never looks at a character.  It steps from byte to byte, also
     inside the characters of a string, compares bytes with one-byte characters, and cuts what it
     keeps out of the text.

  2. **Cuts** — a cut that is not made between two character boundaries in order is `none`
     (`slice?`), and one such cut makes the whole walk `none`.  So that the walk gives anything at
     all says that no cut was made inside a character or beyond the end.

  3. **Twin** — `Condition.scan` reads the same tokens from characters; the two agree on every text
     (`Verdict.Proofs.Condition.Bytes`), so readers may use either.

  Core only.
-/
import Verdict.Condition.Token

namespace Verdict.Condition.Bytewise

open Decimal (isDigit)

/-! ## Bytes and cuts -/

/-- The character with the code of a byte. -/
def byteChar (b : UInt8) : Char := Char.ofNat b.toNat

/-- The part of a text from one byte to another; both must be boundaries, in this order. -/
def slice? (text : String) (start stop : Nat) : Option String :=
  if start ≤ stop ∧ String.Pos.Raw.isValid text ⟨start⟩ ∧ String.Pos.Raw.isValid text ⟨stop⟩ then
    some (String.Pos.Raw.extract text ⟨start⟩ ⟨stop⟩)
  else none

/-! ## Lexemes -/

/-- A token read, and the byte behind it. -/
structure Piece where
  token : Token
  stop : Nat

/-- Does the first of the bytes pass a test? -/
def firstIs (p : Char → Bool) (bs : List UInt8) : Bool := bs.head?.any fun b => p (byteChar b)

/-- How many of the bytes in front pass a test. -/
def runLength (p : Char → Bool) (bs : List UInt8) : Nat :=
  (bs.takeWhile fun b => p (byteChar b)).length

/-- Reads a string up to its closing quote.  `segment` is where the part begins that has not been
    cut out yet, `offset` where the remaining bytes begin. -/
def readString (text : String) (quote : Char) (opened : Nat) :
    (segment offset : Nat) → (done : String) → List UInt8 → Option (Except SyntaxError Piece)
  | _, _, _, [] => some (.error (.unterminatedString opened))
  | segment, offset, done, b :: bs =>
      if byteChar b = quote then
        (slice? text segment offset).map fun part => .ok ⟨.string (done ++ part), offset + 1⟩
      else if byteChar b = '\\' then
        match slice? text segment offset with
        | none => none
        | some part =>
            match bs with
            | [] => some (.error (.unterminatedString opened))
            | e :: rest =>
                match unescaped? (byteChar e) with
                | some x =>
                    readString text quote opened (offset + 2) (offset + 2)
                      (done ++ part ++ String.ofList [x]) rest
                | none =>
                    some (.error (.unexpected .escape (String.ofList ['\\', byteChar e]) offset))
      else readString text quote opened segment (offset + 1) done bs

/-- Where a number ends whose first byte is at `start`, with these bytes behind it. -/
def numberStop (start : Nat) (bs : List UInt8) : Nat :=
  let whole := start + 1 + runLength isDigit bs
  let behind := bs.drop (runLength isDigit bs)
  if firstIs (· == '.') behind && firstIs isDigit behind.tail then
    whole + 1 + runLength isDigit behind.tail
  else whole

/-- Reads the token that begins at `start` with a character `c` that is no sign: a string, a number
    or a word. -/
def longLexeme (text : String) (start : Nat) (c : Char) (bs : List UInt8) :
    Option (Except SyntaxError Piece) :=
  if c = '\x27' ∨ c = '"' then readString text c start (start + 1) (start + 1) "" bs
  else if c = '-' ∨ isDigit c then
    let stop := numberStop start bs
    (slice? text start stop).map fun raw => .ok ⟨.number raw, stop⟩
  else if startsName c then
    let stop := start + 1 + runLength continuesName bs
    (slice? text start stop).map fun word => .ok ⟨.ofWord word, stop⟩
  else
    (slice? text start text.utf8ByteSize).map fun rest =>
      .error (.unexpected .token (String.ofList [rest.toList.headD '?']) start)

/-- Reads the token whose first byte `b` is at `start`, where the bytes `bs` follow. -/
def lexeme (text : String) (start : Nat) (b : UInt8) (bs : List UInt8) :
    Option (Except SyntaxError Piece) :=
  match byteChar b with
  | '(' => some (.ok ⟨.opening, start + 1⟩)
  | ')' => some (.ok ⟨.closing, start + 1⟩)
  | ',' => some (.ok ⟨.comma, start + 1⟩)
  | '.' => some (.ok ⟨.dot, start + 1⟩)
  | '!' =>
      if firstIs (· == '=') bs then some (.ok ⟨.comparator .notEquals, start + 2⟩)
      else some (.ok ⟨.notSign, start + 1⟩)
  | '=' =>
      if firstIs (· == '=') bs then some (.ok ⟨.comparator .equals, start + 2⟩)
      else some (.error (.unexpected .equalsSign "=" start))
  | '<' =>
      if firstIs (· == '=') bs then some (.ok ⟨.comparator .lessThanOrEqual, start + 2⟩)
      else some (.ok ⟨.comparator .lessThan, start + 1⟩)
  | '>' =>
      if firstIs (· == '=') bs then some (.ok ⟨.comparator .greaterThanOrEqual, start + 2⟩)
      else some (.ok ⟨.comparator .greaterThan, start + 1⟩)
  | '&' =>
      if firstIs (· == '&') bs then some (.ok ⟨.andSign, start + 2⟩)
      else some (.error (.unexpected .andSign "&" start))
  | '|' =>
      if firstIs (· == '|') bs then some (.ok ⟨.orSign, start + 2⟩)
      else some (.error (.unexpected .orSign "|" start))
  | c => longLexeme text start c bs

/-! ## Scanning -/

/-- Reads the tokens of the bytes that begin at `offset`, and tells where they end. -/
def scanFrom (text : String) (offset : Nat) (done : List Placed) (bs : List UInt8) :
    Option (Except SyntaxError (List Placed × Nat)) :=
  match bs with
  | [] => some (.ok (done.reverse, offset))
  | b :: bs =>
      if isSpace (byteChar b) then scanFrom text (offset + 1) done bs
      else
        match lexeme text offset b bs with
        | none => none
        | some (.error e) => some (.error e)
        | some (.ok piece) =>
            scanFrom text piece.stop (⟨piece.token, offset⟩ :: done)
              (bs.drop (piece.stop - (offset + 1)))
termination_by bs.length
decreasing_by
  · exact Nat.lt_succ_self _
  · exact Nat.lt_succ_of_le (List.drop_sublist _ _).length_le

/-- The tokens of a text, read from its bytes, and where they end. -/
def scan (text : String) : Option (Except SyntaxError (List Placed × Nat)) :=
  scanFrom text 0 [] text.toByteArray.data.toList

end Verdict.Condition.Bytewise
