/-
  Syntax errors — why a text is no condition.

  1. **Data** — one constructor for each cause.  Every position is a number of BYTES from the
     beginning of the text.

  2. **Program** — `message` words the report; nothing else in the library looks at the wording.

  Core only.
-/
import Verdict.Condition.Bounds

namespace Verdict.Condition

/-- The most bytes a text may have. -/
def maxTextBytes : Nat := 1024 * 1024

/-- How many parentheses, negations and calls may enclose one another. -/
def maxNesting : Nat := 32

/-- What a reader was looking for where it found something else. -/
inductive Expectation where
  | equalsSign
  | andSign
  | orSign
  | escape
  | token
  | closing
  | closingArguments
  | segment
  | literal
  | operand
  | condition
  deriving DecidableEq, Repr

/-- The wording of an expectation. -/
def Expectation.text : Expectation → String
  | equalsSign => "=="
  | andSign => "&&"
  | orSign => "||"
  | escape => "escape sequence"
  | token => "identifier, literal, or operator"
  | closing => "`)`"
  | closingArguments => "`)` after arguments"
  | segment => "identifier after `.`"
  | literal => "literal"
  | operand => "field reference or `(`"
  | condition => "condition or expression"

/-- Why a text is no condition. -/
inductive SyntaxError where
  /-- There is nothing but blanks. -/
  | emptyInput
  /-- The text has more than `maxTextBytes` bytes. -/
  | inputTooLarge (bytes : Nat)
  /-- Something would be enclosed more than `maxNesting` times. -/
  | nestingTooDeep (position : Nat)
  /-- Something else was expected. -/
  | unexpected (expected : Expectation) (found : String) (position : Nat)
  /-- A string is not closed; the position is that of its opening quote. -/
  | unterminatedString (position : Nat)
  /-- The resolver does not know the atom. -/
  | unknownCondition (name : String) (position : Nat)
  /-- A call names no function. -/
  | unknownFunction (name : String) (position : Nat)
  /-- A number does not denote an integer of 64 bits. -/
  | invalidNumber (raw : String) (position : Nat)
  /-- The condition itself is too deep or too large. -/
  | outOfBounds (excess : BoundsError)
  /-- Something follows a complete condition. -/
  | trailingInput (position : Nat)
  deriving DecidableEq

/-- The report of a syntax error. -/
def SyntaxError.message : SyntaxError → String
  | emptyInput => "input is empty"
  | inputTooLarge bytes =>
      s!"input exceeds size limit: {bytes} bytes (max {maxTextBytes})"
  | nestingTooDeep position =>
      s!"input nesting exceeds limit: depth {maxNesting + 1} (max {maxNesting}) at {position}"
  | unexpected expected found position =>
      "unexpected token `" ++ found ++ s!"` at {position}, expected " ++ expected.text
  | unterminatedString position => s!"unterminated string literal starting at {position}"
  | unknownCondition name position => "unknown condition `" ++ name ++ s!"` at {position}"
  | unknownFunction name position => "unknown function `" ++ name ++ s!"` at {position}"
  | invalidNumber raw position => "invalid number `" ++ raw ++ s!"` at {position}"
  | outOfBounds excess => excess.message
  | trailingInput position => s!"unexpected trailing input at {position}"

end Verdict.Condition
