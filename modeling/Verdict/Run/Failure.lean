/-
  Failures — how a run can end without an output.

  1. **Data** — a run fails by itself, or because a step's target failed.  The target may be a
     table, or a flow whose run failed: then the failure holds that other failure, as deep as flows
     are nested.

  2. **Program** — `message` words the report, `label` is the short name that events carry.

  Core only.
-/
import Verdict.Run.Control
import Verdict.Table.Evaluation

namespace Verdict.Run

mutual

/-- Why a run ended without an output. -/
inductive RunError where
  | unknownFlow (flow : String)
  | invalidInput (flow : String) (violation : ShapeViolation)
  | stepFailed (step : String) (index : Nat) (cause : StepFailure)
  | gateFailed (step : String) (index : Nat) (condition : String) (note : Option String)
  | resultMismatch (step : String) (index : Nat) (expected : ValueType) (found : Kind)
  | stepTimedOut (step : String) (index : Nat) (budget : UInt64)
  | unresolvedSource (step : String) (index : Nat) (reference : String)
  | cancelled (completed : Nat) (last : Option String)
  | deadlineExceeded (completed : Nat) (last : Option String)

/-- Why the target of a step gave no value. -/
inductive StepFailure where
  | evaluation (e : EvaluationError)
  | run (e : RunError)

end

/-- A step as messages name it. -/
def stepAt (step : String) (index : Nat) : String := "step `" ++ step ++ s!"` (index {index})"

mutual

/-- The report of a failed run. -/
def RunError.message : RunError → String
  | .unknownFlow flow => "unknown orchestrator identifier: " ++ flow
  | .invalidInput flow violation =>
      "invalid input for orchestrator `" ++ flow ++ "`: " ++ violation.message
  | .stepFailed step index cause => stepAt step index ++ " failed: " ++ cause.message
  | .gateFailed step index condition note =>
      "gate failed at " ++ stepAt step index ++ ": " ++ condition
        ++ (match note with
            | some text => " (" ++ text ++ ")"
            | none => "")
  | .resultMismatch step index expected found =>
      stepAt step index ++ " returned a " ++ found.name ++ " value where " ++ expected.text
        ++ " is declared"
  | .stepTimedOut step index budget =>
      stepAt step index ++ " exceeded its " ++ s!"{budget.toNat} ms budget"
  | .unresolvedSource step index reference =>
      stepAt step index ++ " could not read `" ++ reference ++ "`"
  | .cancelled completed _ => s!"run cancelled after {completed} completed steps"
  | .deadlineExceeded completed _ => s!"run deadline exceeded after {completed} completed steps"

/-- The report of a failed target. -/
def StepFailure.message : StepFailure → String
  | .evaluation e => e.message
  | .run e => e.message

end

namespace RunError

/-- The interruption that ended the run, if one did. -/
def interruption? : RunError → Option Interruption
  | cancelled _ _ => some .cancelled
  | deadlineExceeded _ _ => some .deadlineExceeded
  | _ => none

/-- The error of a run that an interruption ended. -/
def ofInterruption (completed : Nat) (last : Option String) : Interruption → RunError
  | .cancelled => cancelled completed last
  | .deadlineExceeded => deadlineExceeded completed last

/-- The label of a failed run. -/
def label : RunError → String
  | unknownFlow _ => "unknown_orchestrator"
  | invalidInput _ _ => "invalid_input"
  | stepFailed _ _ _ => "step_failed"
  | gateFailed _ _ _ _ => "gate_failed"
  | resultMismatch _ _ _ _ => "result_type_mismatch"
  | stepTimedOut _ _ _ => "step_timed_out"
  | unresolvedSource _ _ _ => "unresolved_source"
  | cancelled _ _ => "cancelled"
  | deadlineExceeded _ _ => "deadline_exceeded"

end RunError

/-- The interruption that ended the run of a nested flow, if one did. -/
def StepFailure.interruption? : StepFailure → Option Interruption
  | evaluation _ => none
  | run e => e.interruption?

end Verdict.Run
