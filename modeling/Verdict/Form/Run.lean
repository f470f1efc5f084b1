/-
  Forms of events and of the status of a run.

  Events and statuses are only written, never read.

  Core only.
-/
import Verdict.Form.Basic
import Verdict.Run.Execution

namespace Verdict.Run

/-- The form of an event: its name is the part `event`. -/
def Event.toForm : Event → Form
  | tableEvaluated table rule outcome =>
      .object [("event", .str "table_evaluated"), ("table_id", .str table),
        ("rule_index", match rule with
          | some (index, _) => .int index
          | none => .null),
        ("rule_id", match rule with
          | some (_, id) => .str id
          | none => .null),
        ("outcome", .str outcome)]
  | stepCompleted flow step index =>
      .object [("event", .str "step_completed"), ("orchestrator_id", .str flow),
        ("step", .str step), ("step_index", .int index)]
  | gateEvaluated flow step index condition passed =>
      .object [("event", .str "gate_evaluated"), ("orchestrator_id", .str flow),
        ("step", .str step), ("step_index", .int index), ("condition", .str condition),
        ("passed", .bool passed)]
  | runFinished flow status completed =>
      .object [("event", .str "run_finished"), ("orchestrator_id", .str flow),
        ("status", .str status), ("completed_steps", .int completed)]

/-- The form of a status: what it is called is the part `state`. -/
def Status.toForm : Status → Form
  | pending => .object [("state", .str "pending")]
  | running index => .object [("state", .str "running"), ("step_index", .int index)]
  | succeeded => .object [("state", .str "succeeded")]
  | failedAtStep index step =>
      .object [("state", .str "failed_at_step"), ("step_index", .int index), ("step", .str step)]
  | cancelled completed =>
      .object [("state", .str "cancelled"), ("completed_steps", .int completed)]

end Verdict.Run
