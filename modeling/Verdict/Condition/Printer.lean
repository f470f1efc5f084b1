/-
  Printing — a condition as text that reads back with the same meaning.

  1. **Binding** — OR binds loosest, then AND, then NOT and the atoms.  A part that binds looser
     than its operator stands in parentheses, and no other part does.

  2. **Degenerate operators** — an AND or an OR without parts is the constant it is equal to; with
     ONE part it is that part, and binds as that part does.  Printing forgets these two forms and
     nothing else that matters for the value.

  Core only.
-/
import Verdict.Condition.Basic

namespace Verdict.Condition

variable {α : Type}

/-- How tightly the text of a condition binds. -/
inductive Binding where
  | or
  | and
  | unary
  deriving DecidableEq, Repr

/-- Does the first bind looser than the second? -/
def Binding.looser : Binding → Binding → Bool
  | .or, .or => false
  | .or, _ => true
  | .and, .unary => true
  | _, _ => false

/-- How tightly the text of a condition binds: one part alone binds as itself. -/
def binding : Condition α → Binding
  | constant _ => .unary
  | leaf _ => .unary
  | not _ => .unary
  | all [] => .unary
  | all [c] => c.binding
  | all (_ :: _ :: _) => .and
  | any [] => .unary
  | any [c] => c.binding
  | any (_ :: _ :: _) => .or

/-- The text of a part, in parentheses if it binds looser than the operator around it. -/
def wrapped (outer inner : Binding) (text : String) : String :=
  if inner.looser outer then "(" ++ text ++ ")" else text

mutual

/-- The text of a condition when `spell` gives the text of every test. -/
def render (spell : α → String) : Condition α → String
  | constant b => if b then "true" else "false"
  | leaf t => spell t
  | not c => "!" ++ wrapped .unary c.binding (c.render spell)
  | all [] => "true"
  | all [c] => c.render spell
  | all (c :: d :: cs) => " && ".intercalate (renderParts spell .and (c :: d :: cs))
  | any [] => "false"
  | any [c] => c.render spell
  | any (c :: d :: cs) => " || ".intercalate (renderParts spell .or (c :: d :: cs))

/-- The texts of the parts of an operator. -/
def renderParts (spell : α → String) (outer : Binding) : List (Condition α) → List String
  | [] => []
  | c :: cs => wrapped outer c.binding (c.render spell) :: renderParts spell outer cs

end

end Verdict.Condition
