/-
  Evaluation of tables — the first rule that holds.

  1. **Specification** — the input has to fit the declared shape.  Then the first rule whose
     condition holds answers, and the answer has the declared output type: an integer literal
     under a float output is answered as a float.  If no rule holds that is an ERROR.

  2. **Purity** — nothing is remembered from one evaluation to the next.

  Core only.
-/
import Verdict.Shape.Conformance
import Verdict.Table.Basic

namespace Verdict

/-- Why a table gives no answer. -/
inductive EvaluationError where
  | unknownTable (table : String)
  | invalidInput (table : String) (violation : ShapeViolation)
  | noRuleMatched (table : String) (input : Record)
  | nonNumericOperand (table rule field : String)

/-- The report of a missing answer. -/
def EvaluationError.message : EvaluationError → String
  | unknownTable table => "unknown table identifier: " ++ table
  | invalidInput table violation =>
      "invalid input for table `" ++ table ++ "`: " ++ violation.message
  | noRuleMatched table input =>
      "no rule matched in table `" ++ table ++ "` for input " ++ input.text
  | nonNumericOperand table rule field =>
      "rule `" ++ rule ++ "` in table `" ++ table ++ "` has no numeric value at `" ++ field ++ "`"

/-- An answer: the rule that gave it, and its value. -/
structure Answer where
  ruleIndex : Nat
  ruleId : String
  value : Value

namespace Table

/-- The value of a rule's result for an input. -/
def resultOf (t : Table) (r : Rule) (input : Record) : Except EvaluationError Value :=
  match r.result with
  | .literal v => .ok (t.output.coerce v)
  | .linear field coefficient offset =>
      match (input.lookup field).bind Value.toFloat? with
      | some x => .ok (.scalar (.float (x * coefficient + offset)))
      | none => .error (.nonNumericOperand t.id r.id field.text)

/-- The answer of the first rule that holds, where the rules begin at `index`. -/
def answerFrom (t : Table) (input : Record) : (index : Nat) → List Rule →
    Except EvaluationError Answer
  | _, [] => .error (.noRuleMatched t.id input)
  | index, r :: rules =>
      if r.condition.holds (FieldTest.holds input.lookup) then do
        let v ← t.resultOf r input
        return ⟨index, r.id, v⟩
      else answerFrom t input (index + 1) rules

/-- The answer of a table. -/
def evaluate (t : Table) (input : Record) : Except EvaluationError Answer :=
  match t.input.check input with
  | .error violation => .error (.invalidInput t.id violation)
  | .ok () => t.answerFrom input 0 t.rules

end Table

end Verdict
