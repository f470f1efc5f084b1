/-
  Tokens — the words of the condition language.

  1. **Data** — a token with the place where it begins; the end of the text is no token but the end
     of the row.

  2. **Program** — `scan` walks over the CHARACTERS of a text and counts their bytes, so that every
     position it reports is the beginning of a character.  `lexeme` reads one token and returns
     what is left of the text, which is shorter (`Lexeme.rest_le`); that is why `scan` ends.

  3. **Numbers** — a number may begin with a minus sign and may have a fraction.  The sign alone is
     a number as far as this module goes: whether a number denotes anything is asked later.

  4. **Strings** — between single or double quotes, with the escapes `\\`, `\'`, `\"`, `\n` and
     `\t`; every other character, line breaks included, stands for itself.

  Core only.
-/
import Verdict.Condition.SyntaxError
import Verdict.Name
import Verdict.Scalar

namespace Verdict.Condition

/-- A word of the condition language. -/
inductive Token where
  | name (text : String)
  | number (raw : String)
  | string (value : String)
  | trueWord
  | falseWord
  | comparator (c : Comparator)
  | dot
  | andSign
  | orSign
  | notSign
  | opening
  | closing
  | comma
  deriving DecidableEq

/-- A token as reports show it: the word operators by their signs, a string as it is quoted. -/
def Token.shown : Token → String
  | name text => text
  | number raw => raw
  | string value => Text.quote value
  | trueWord => "true"
  | falseWord => "false"
  | comparator c => c.symbol
  | dot => "."
  | andSign => "&&"
  | orSign => "||"
  | notSign => "!"
  | opening => "("
  | closing => ")"
  | comma => ","

/-- The token that a word is. -/
def Token.ofWord (word : String) : Token :=
  match word with
  | "and" => andSign
  | "or" => orSign
  | "not" => notSign
  | "true" => trueWord
  | "false" => falseWord
  | _ => name word

/-- A token, and the byte of the text at which it begins. -/
structure Placed where
  token : Token
  position : Nat
  deriving DecidableEq

/-- One token read: how many bytes it takes, and the text behind it. -/
structure Lexeme where
  token : Token
  width : Nat
  rest : List Char

/-! ## Strings -/

/-- The character that an escape stands for. -/
def unescaped? : Char → Option Char
  | '\\' => some '\\'
  | '\x27' => some '\x27'
  | '"' => some '"'
  | 'n' => some '\n'
  | 't' => some '\t'
  | _ => none

/-- The first byte of a character, as the character with that code. -/
def leadByte (c : Char) : Char :=
  Char.ofNat ((String.utf8EncodeChar c).headD 0).toNat

/-- Reads a string up to its closing quote.  `opened` is where it was opened, `position` where the
    remaining text begins, and `done` holds what was read, last character first. -/
def readString (quote : Char) (opened : Nat) :
    (position : Nat) → (done : List Char) → List Char → Except SyntaxError Lexeme
  | _, _, [] => .error (.unterminatedString opened)
  | position, done, c :: cs =>
      if c = quote then .ok ⟨.string (String.ofList done.reverse), position + 1 - opened, cs⟩
      else if c = '\\' then
        match cs with
        | [] => .error (.unterminatedString opened)
        | e :: rest =>
            match unescaped? e with
            | some x => readString quote opened (position + 2) (x :: done) rest
            | none => .error (.unexpected .escape (String.ofList ['\\', leadByte e]) position)
      else readString quote opened (position + c.utf8Size) (c :: done) cs

/-! ## Numbers and words -/

/-- Reads a number that begins with `c`: digits, and a fraction if a point and a digit follow. -/
def readNumber (c : Char) (cs : List Char) : Lexeme :=
  let whole := c :: cs.takeWhile Decimal.isDigit
  match cs.dropWhile Decimal.isDigit with
  | '.' :: d :: rest =>
      if Decimal.isDigit d then
        let raw := whole ++ '.' :: d :: rest.takeWhile Decimal.isDigit
        ⟨.number (String.ofList raw), raw.length, rest.dropWhile Decimal.isDigit⟩
      else ⟨.number (String.ofList whole), whole.length, '.' :: d :: rest⟩
  | rest => ⟨.number (String.ofList whole), whole.length, rest⟩

/-- Reads a word that begins with `c`. -/
def readWord (c : Char) (cs : List Char) : Lexeme :=
  let word := c :: cs.takeWhile continuesName
  ⟨.ofWord (String.ofList word), word.length, cs.dropWhile continuesName⟩

/-! ## One token -/

/-- Reads the token that begins with `c` at `position`, where `cs` follows. -/
def lexeme (position : Nat) (c : Char) (cs : List Char) : Except SyntaxError Lexeme :=
  match c, cs with
  | '(', _ => .ok ⟨.opening, 1, cs⟩
  | ')', _ => .ok ⟨.closing, 1, cs⟩
  | ',', _ => .ok ⟨.comma, 1, cs⟩
  | '.', _ => .ok ⟨.dot, 1, cs⟩
  | '!', '=' :: rest => .ok ⟨.comparator .notEquals, 2, rest⟩
  | '!', _ => .ok ⟨.notSign, 1, cs⟩
  | '=', '=' :: rest => .ok ⟨.comparator .equals, 2, rest⟩
  | '=', _ => .error (.unexpected .equalsSign "=" position)
  | '<', '=' :: rest => .ok ⟨.comparator .lessThanOrEqual, 2, rest⟩
  | '<', _ => .ok ⟨.comparator .lessThan, 1, cs⟩
  | '>', '=' :: rest => .ok ⟨.comparator .greaterThanOrEqual, 2, rest⟩
  | '>', _ => .ok ⟨.comparator .greaterThan, 1, cs⟩
  | '&', '&' :: rest => .ok ⟨.andSign, 2, rest⟩
  | '&', _ => .error (.unexpected .andSign "&" position)
  | '|', '|' :: rest => .ok ⟨.orSign, 2, rest⟩
  | '|', _ => .error (.unexpected .orSign "|" position)
  | c, _ =>
      if c = '\x27' ∨ c = '"' then readString c position (position + 1) [] cs
      else if c = '-' ∨ Decimal.isDigit c then .ok (readNumber c cs)
      else if startsName c then .ok (readWord c cs)
      else .error (.unexpected .token (String.ofList [c]) position)

theorem length_dropWhile_le (p : Char → Bool) (cs : List Char) :
    (cs.dropWhile p).length ≤ cs.length :=
  (List.dropWhile_sublist p).length_le

theorem readString_rest_le {quote : Char} {opened position : Nat} {done cs : List Char}
    {l : Lexeme} (h : readString quote opened position done cs = .ok l) :
    l.rest.length ≤ cs.length := by
  fun_induction readString quote opened position done cs with
  | case1 => exact nomatch h
  | case2 position done cs => cases h; exact Nat.le_succ _
  | case3 => exact nomatch h
  | case4 position done e rest _ x _ ih => exact Nat.le_trans (ih h) (by simp; omega)
  | case5 => exact nomatch h
  | case6 position done c cs _ _ ih => exact Nat.le_trans (ih h) (Nat.le_succ _)

theorem readNumber_rest_le (c : Char) (cs : List Char) :
    (readNumber c cs).rest.length ≤ cs.length := by
  have hd := length_dropWhile_le Decimal.isDigit cs
  unfold readNumber
  split
  · rename_i d rest heq
    rw [heq] at hd
    split
    · exact Nat.le_trans (length_dropWhile_le _ _) (Nat.le_trans (by simp; omega) hd)
    · exact hd
  · exact hd

/-- What follows a token is no longer than what followed its first character. -/
theorem Lexeme.rest_le {position : Nat} {c : Char} {cs : List Char} {l : Lexeme}
    (h : lexeme position c cs = .ok l) : l.rest.length ≤ cs.length := by
  unfold lexeme at h
  split at h
  case h_17 =>
    split at h
    · exact readString_rest_le h
    · split at h
      · injection h with h
        exact h ▸ readNumber_rest_le _ _
      · split at h
        · injection h with h
          exact h ▸ length_dropWhile_le _ _
        · simp at h
  all_goals first
    | (injection h with h; subst h; simp)
    | simp at h

/-! ## All tokens -/

/-- Does `c` only separate tokens? -/
def isSpace (c : Char) : Bool := c == ' ' || c == '\t' || c == '\n' || c == '\r'

/-- Reads the tokens of a text that begins at `position`; `done` holds those before it, the last
    first. -/
def scanFrom (position : Nat) (done : List Placed) (cs : List Char) :
    Except SyntaxError (List Placed) :=
  match cs with
  | [] => .ok done.reverse
  | c :: cs =>
      if isSpace c then scanFrom (position + 1) done cs
      else
        match _h : lexeme position c cs with
        | .error e => .error e
        | .ok l => scanFrom (position + l.width) (⟨l.token, position⟩ :: done) l.rest
termination_by cs.length
decreasing_by
  · exact Nat.lt_succ_self _
  · exact Nat.lt_succ_of_le (Lexeme.rest_le ‹_›)

/-- The tokens of a text. -/
def scan (text : String) : Except SyntaxError (List Placed) := scanFrom 0 [] text.toList

end Verdict.Condition
