/-
  Reading — a condition from its text.

  1. **Grammar** — over the tokens of the text:

         expression := and ('||' and)*
         and        := operand ('&&' operand)*
         operand    := '!' operand | '(' expression ')' | 'true' | 'false'
                     | ('all' | 'any') '(' [expression (',' expression)*] ')'
                     | path [comparator literal]
         path       := name ('.' name)*

     One operand is itself, several are the parts of ONE node.  A name before a parenthesis is
     always a function; `all` and `any` are fields everywhere else.

  2. **Program** — a reader takes tokens from the front of a row and returns what it read together
     with the tokens behind it, which are fewer (`Parsed.shorter`).  That is why its loops end.

  3. **Nesting** — a negation, a parenthesis and a call each read their inside one level deeper.
     `operandAt n` reads with `n` levels left and recurses on `n`; without a level left the same
     three are refused at the place where they begin.

  4. **Atoms** — what a path or a comparison MEANS is the `Resolver`'s business.

  Core only.
-/
import Verdict.Condition.Token

namespace Verdict.Condition

/-- How the atoms of a text become tests; `none` says that an atom is not known. -/
structure Resolver (α : Type) where
  field : (path : String) → Option α
  comparison : (path : String) → Comparator → Scalar → Option α

/-- Something read from the front of a row of tokens, and the tokens behind it. -/
structure Parsed (β : Type) (tokens : List Placed) where
  value : β
  rest : List Placed
  shorter : rest.length < tokens.length

/-- Reads something from the front of a row of tokens. -/
abbrev Reader (β : Type) := (tokens : List Placed) → Except SyntaxError (Parsed β tokens)

/-- Where the next token begins; behind the last token the text stops. -/
def placeOf (stop : Nat) : List Placed → Nat
  | [] => stop
  | t :: _ => t.position

/-- The next token, as a report shows it. -/
def shownFirst : List Placed → String
  | [] => "end of input"
  | t :: _ => t.token.shown

/-- The report that something else was expected in front of these tokens. -/
def refusal (stop : Nat) (expected : Expectation) (tokens : List Placed) : SyntaxError :=
  .unexpected expected (shownFirst tokens) (placeOf stop tokens)

/-- Takes a token off the front of a row, if it stands there. -/
def past? (sign : Token) : (tokens : List Placed) → Option (Parsed Unit tokens)
  | [] => none
  | t :: rest => if t.token = sign then some ⟨(), rest, Nat.lt_succ_self _⟩ else none

/-- Takes a name off the front of a row, if one stands there. -/
def pastName? : (tokens : List Placed) → Option (Parsed String tokens)
  | ⟨.name n, _⟩ :: rest => some ⟨n, rest, Nat.lt_succ_self _⟩
  | _ => none

/-- Takes a comparator off the front of a row, if one stands there. -/
def pastComparator? : (tokens : List Placed) → Option (Parsed Comparator tokens)
  | ⟨.comparator c, _⟩ :: rest => some ⟨c, rest, Nat.lt_succ_self _⟩
  | _ => none

/-! ## Literals and paths -/

/-- The integer with the given digits, if it is one of 64 bits. -/
def integer? (negative : Bool) (digits : List Char) : Option Int64 :=
  let n : Int := Decimal.digitsValue digits
  let n := if negative then -n else n
  if digits.isEmpty then none
  else if Int64.minValue.toInt ≤ n ∧ n ≤ Int64.maxValue.toInt then some (Int64.ofInt n)
  else none

/-- A minus sign taken off, and whether there was one. -/
def withoutSign : List Char → Bool × List Char
  | '-' :: digits => (true, digits)
  | digits => (false, digits)

/-- The number that a token denotes: with a point the nearest float, without one an integer. -/
def number? (raw : String) : Option Scalar :=
  let (negative, digits) := withoutSign raw.toList
  match digits.dropWhile (· ≠ '.') with
  | [] => (integer? negative digits).map .int
  | _ :: fraction => some (.float (Decimal.ofDigits negative (digits.takeWhile (· ≠ '.')) fraction))

/-- Reads the literal of a comparison. -/
def literal (stop : Nat) : Reader Scalar
  | ⟨.trueWord, _⟩ :: rest => .ok ⟨.bool true, rest, Nat.lt_succ_self _⟩
  | ⟨.falseWord, _⟩ :: rest => .ok ⟨.bool false, rest, Nat.lt_succ_self _⟩
  | ⟨.string s, _⟩ :: rest => .ok ⟨.str s, rest, Nat.lt_succ_self _⟩
  | ⟨.number raw, position⟩ :: rest =>
      match number? raw with
      | some n => .ok ⟨n, rest, Nat.lt_succ_self _⟩
      | none => .error (.invalidNumber raw position)
  | tokens => .error (refusal stop .literal tokens)

/-- Reads the further names of a path; `done` holds those read so far, the last one first. -/
def furtherNames (stop : Nat) {start : List Placed} (done : List String) (tokens : List Placed)
    (h : tokens.length < start.length) : Except SyntaxError (Parsed (List String) start) :=
  match past? .dot tokens with
  | none => .ok ⟨done.reverse, tokens, h⟩
  | some ⟨(), rest, h₁⟩ =>
      match pastName? rest with
      | none => .error (refusal stop .segment rest)
      | some ⟨n, rest', h₂⟩ => furtherNames stop (n :: done) rest' (by omega)
termination_by tokens.length

section

variable {α : Type} (resolver : Resolver α) (stop : Nat)

/-- Reads an atom whose first name, at `position`, has been read. -/
def atom {start : List Placed} (head : String) (position : Nat) (tokens : List Placed)
    (h : tokens.length < start.length) : Except SyntaxError (Parsed (Condition α) start) :=
  match furtherNames stop [head] tokens h with
  | .error e => .error e
  | .ok ⟨names, rest, h⟩ =>
      let path := ".".intercalate names
      match pastComparator? rest with
      | none =>
          match resolver.field path with
          | some test => .ok ⟨.leaf test, rest, h⟩
          | none => .error (.unknownCondition path position)
      | some ⟨c, rest, h₁⟩ =>
          match literal stop rest with
          | .error e => .error e
          | .ok ⟨s, rest, h₂⟩ =>
              match resolver.comparison path c s with
              | some test => .ok ⟨.leaf test, rest, by omega⟩
              | none =>
                  .error (.unknownCondition (path ++ " " ++ c.symbol ++ " " ++ s.text) position)

end

/-! ## Chains and arguments -/

section

variable {α : Type}

/-- Reads further operands, each behind `sign`; `done` holds those read so far, the last first. -/
def furtherOperands (sign : Token) (operand : Reader (Condition α)) {start : List Placed}
    (done : List (Condition α)) (tokens : List Placed) (h : tokens.length < start.length) :
    Except SyntaxError (Parsed (List (Condition α)) start) :=
  match past? sign tokens with
  | none => .ok ⟨done.reverse, tokens, h⟩
  | some ⟨(), rest, h₁⟩ =>
      match operand rest with
      | .error e => .error e
      | .ok ⟨c, rest', h₂⟩ => furtherOperands sign operand (c :: done) rest' (by omega)
termination_by tokens.length

/-- One operand stands for itself; several are the parts of one node. -/
def joined (node : List (Condition α) → Condition α) : List (Condition α) → Condition α
  | [c] => c
  | cs => node cs

/-- Reads operands with `sign` between them. -/
def chain (sign : Token) (node : List (Condition α) → Condition α)
    (operand : Reader (Condition α)) : Reader (Condition α) := fun tokens =>
  match operand tokens with
  | .error e => .error e
  | .ok ⟨c, rest, h⟩ =>
      match furtherOperands sign operand [c] rest h with
      | .error e => .error e
      | .ok ⟨cs, rest, h⟩ => .ok ⟨joined node cs, rest, h⟩

/-- Reads an expression, given how its operands are read: OR binds looser than AND. -/
def expression (operand : Reader (Condition α)) : Reader (Condition α) :=
  chain .orSign .any (chain .andSign .all operand)

/-- Reads the arguments of a call that has at least one, and the parenthesis behind them; `done`
    holds those read so far, the last first. -/
def furtherArguments (stop : Nat) (argument : Reader (Condition α)) {start : List Placed}
    (done : List (Condition α)) (tokens : List Placed) (h : tokens.length < start.length) :
    Except SyntaxError (Parsed (List (Condition α)) start) :=
  match argument tokens with
  | .error e => .error e
  | .ok ⟨c, rest, h₁⟩ =>
      match past? .comma rest with
      | some ⟨(), rest', h₂⟩ => furtherArguments stop argument (c :: done) rest' (by omega)
      | none =>
          match past? .closing rest with
          | some ⟨(), rest', h₂⟩ => .ok ⟨(c :: done).reverse, rest', by omega⟩
          | none => .error (refusal stop .closingArguments rest)
termination_by tokens.length

/-- Reads the arguments of a call whose parenthesis has been read, and the one that closes it. -/
def arguments (stop : Nat) (argument : Reader (Condition α)) {start : List Placed}
    (tokens : List Placed) (h : tokens.length < start.length) :
    Except SyntaxError (Parsed (List (Condition α)) start) :=
  match past? .closing tokens with
  | some ⟨(), rest, h₁⟩ => .ok ⟨[], rest, by omega⟩
  | none => furtherArguments stop argument [] tokens h

/-- The function with a given name: a node made of the arguments. -/
def function? (name : String) : Option (List (Condition α) → Condition α) :=
  match name with
  | "all" => some .all
  | "any" => some .any
  | _ => none

end

/-! ## Operands -/

section

variable {α : Type} (resolver : Resolver α) (stop : Nat)

/-- Reads what follows a name: the arguments of a call, or the rest of an atom.  `inner` reads one
    level deeper, if there is a level. -/
def named (inner : Option (Reader (Condition α))) {start : List Placed} (name : String)
    (position : Nat) (tokens : List Placed) (h : tokens.length < start.length) :
    Except SyntaxError (Parsed (Condition α) start) :=
  match past? .opening tokens with
  | none => atom resolver stop name position tokens h
  | some ⟨(), rest, h₁⟩ =>
      match inner with
      | none => .error (.nestingTooDeep position)
      | some operand =>
          match function? name with
          | none => .error (.unknownFunction name position)
          | some node =>
              match @arguments α stop (expression operand) start rest (by omega) with
              | .error e => .error e
              | .ok ⟨cs, rest, h⟩ => .ok ⟨node cs, rest, h⟩

/-- Reads what follows an opening parenthesis at `position`, and the one that closes it. -/
def grouped (inner : Option (Reader (Condition α))) {start : List Placed} (position : Nat)
    (tokens : List Placed) (h : tokens.length < start.length) :
    Except SyntaxError (Parsed (Condition α) start) :=
  match inner with
  | none => .error (.nestingTooDeep position)
  | some operand =>
      match expression operand tokens with
      | .error e => .error e
      | .ok ⟨c, rest, h₁⟩ =>
          match past? .closing rest with
          | some ⟨(), rest', h₂⟩ => .ok ⟨c, rest', by omega⟩
          | none => .error (refusal stop .closing rest)

/-- Reads what follows a negation at `position`. -/
def negated (inner : Option (Reader (Condition α))) {start : List Placed} (position : Nat)
    (tokens : List Placed) (h : tokens.length < start.length) :
    Except SyntaxError (Parsed (Condition α) start) :=
  match inner with
  | none => .error (.nestingTooDeep position)
  | some operand =>
      match operand tokens with
      | .error e => .error e
      | .ok ⟨c, rest, h₁⟩ => .ok ⟨.not c, rest, by omega⟩

/-- Reads an operand; `inner` reads one level deeper, if there is a level. -/
def operand (inner : Option (Reader (Condition α))) : Reader (Condition α)
  | ⟨.notSign, position⟩ :: rest => negated inner position rest (Nat.lt_succ_self _)
  | ⟨.opening, position⟩ :: rest => grouped stop inner position rest (Nat.lt_succ_self _)
  | ⟨.name n, position⟩ :: rest =>
      named resolver stop inner n position rest (Nat.lt_succ_self _)
  | ⟨.trueWord, _⟩ :: rest => .ok ⟨.constant true, rest, Nat.lt_succ_self _⟩
  | ⟨.falseWord, _⟩ :: rest => .ok ⟨.constant false, rest, Nat.lt_succ_self _⟩
  | ⟨.number raw, position⟩ :: _ => .error (.unexpected .operand raw position)
  | tokens => .error (refusal stop .condition tokens)

/-- Reads an operand in which at most `levels` things may enclose one another. -/
def operandAt : (levels : Nat) → Reader (Condition α)
  | 0 => operand resolver stop none
  | levels + 1 => operand resolver stop (some (operandAt levels))

end

/-! ## Texts -/

/-- The condition that a text spells.  What is read from text is always within the default
    bounds. -/
def read {α : Type} (resolver : Resolver α) (text : String) : Except SyntaxError (Condition α) := do
  let stop := text.utf8ByteSize
  if maxTextBytes < stop then throw (.inputTooLarge stop)
  let tokens ← scan text
  if tokens.isEmpty then throw .emptyInput
  let ⟨c, rest, _⟩ ← expression (operandAt resolver stop maxNesting) tokens
  match rest with
  | t :: _ => throw (.trailingInput t.position)
  | [] =>
      match Bounds.default.check c with
      | .error excess => throw (.outOfBounds excess)
      | .ok () => return c

end Verdict.Condition
