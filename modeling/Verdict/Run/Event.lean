/-
  Events — what is recorded of evaluations and runs, in the order in which it happens.

  An event says what became known: the rule that answered, the step that completed, whether a gate
  held, how a run ended.  Values are not recorded.

  Core only.
-/
import Verdict.Run.Failure

namespace Verdict.Run

/-- The label of a table that gave no answer. -/
def evaluationLabel : EvaluationError → String
  | .unknownTable _ => "unknown_table"
  | .invalidInput _ _ => "invalid_input"
  | .noRuleMatched _ _ => "no_rule_matched"
  | .nonNumericOperand _ _ _ => "non_numeric_operand"

/-- Something that happened. -/
inductive Event where
  /-- A table was evaluated; the rule is the one that answered. -/
  | tableEvaluated (table : String) (rule : Option (Nat × String)) (outcome : String)
  /-- A step has its result. -/
  | stepCompleted (flow step : String) (index : Nat)
  /-- A gate was asked. -/
  | gateEvaluated (flow step : String) (index : Nat) (condition : String) (passed : Bool)
  /-- A run ended. -/
  | runFinished (flow status : String) (completed : Nat)
  deriving DecidableEq

namespace Event

/-- The name of an event. -/
def name : Event → String
  | tableEvaluated _ _ _ => "table_evaluated"
  | stepCompleted _ _ _ => "step_completed"
  | gateEvaluated _ _ _ _ _ => "gate_evaluated"
  | runFinished _ _ _ => "run_finished"

/-- The event of an evaluation. -/
def ofEvaluation (table : String) : Except EvaluationError Answer → Event
  | .ok a => tableEvaluated table (some (a.ruleIndex, a.ruleId)) "matched"
  | .error e => tableEvaluated table none (evaluationLabel e)

/-- The event of a run's end. -/
def ofOutcome (flow : String) (completed : Nat) : Except RunError Record → Event
  | .ok _ => runFinished flow "succeeded" completed
  | .error e => runFinished flow e.label completed

end Event

end Verdict.Run
