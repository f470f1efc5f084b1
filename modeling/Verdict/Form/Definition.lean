/-
  Forms of definitions — tables, flows and limits as they are serialized.

  Every definition is an object.  What a definition does not say is left out of its form, and is
  read back as not said.

  Core only.
-/
import Verdict.Flow.Basic
import Verdict.Form.Condition
import Verdict.Limits
import Verdict.Table.Basic

namespace Verdict

/-- Reads a row, entry by entry. -/
def Form.listOf? {α : Type} (read : Form → Option α) (form : Form) : Option (List α) :=
  form.items?.bind (·.mapM read)

/-! ## Tables -/

/-- The form of a result. -/
def RuleResult.toForm : RuleResult → Form
  | literal v => .object [("literal", v.toForm)]
  | linear field coefficient offset =>
      .object [("linear", .object
        [("field", field.toForm), ("coefficient", .ofFloat coefficient),
         ("offset", .ofFloat offset)])]

/-- The result that a form is. -/
def RuleResult.ofForm? : Form → Option RuleResult
  | .object [("literal", form)] => (Value.ofForm? form).map literal
  | .object [("linear", .object parts)] => do
      let field ← Form.required FieldPath.ofForm? parts "field"
      let coefficient ← Form.required Form.float? parts "coefficient"
      let offset ← Form.required Form.float? parts "offset"
      return linear field coefficient offset
  | _ => none

/-- The form of a rule. -/
def Rule.toForm (r : Rule) : Form :=
  .object [("rule_id", .str r.id), ("when", FieldCondition.toForm r.condition),
    ("then", r.result.toForm)]

/-- The rule that a form is. -/
def Rule.ofForm? (form : Form) : Option Rule := do
  let parts ← form.parts?
  let id ← Form.required Form.str? parts "rule_id"
  let condition ← Form.required FieldCondition.ofForm? parts "when"
  let result ← Form.required RuleResult.ofForm? parts "then"
  return { id, condition, result }

/-- The form of a table. -/
def Table.toForm (t : Table) : Form :=
  .object [("table_id", .str t.id), ("input", t.input.toForm), ("output", t.output.toForm),
    ("rules", .list (t.rules.map Rule.toForm))]

/-- The table that a form is. -/
def Table.ofForm? (form : Form) : Option Table := do
  let parts ← form.parts?
  let id ← Form.required Form.str? parts "table_id"
  let input ← Form.required Shape.ofForm? parts "input"
  let output ← Form.required ValueType.ofForm? parts "output"
  let rules ← Form.required (Form.listOf? Rule.ofForm?) parts "rules"
  return { id, input, output, rules }

/-! ## Flows -/

/-- The form of a target. -/
def Target.toForm : Target → Form
  | table id => .object [("table", .str id)]
  | flow id => .object [("orchestrator", .str id)]

/-- The target that a form is. -/
def Target.ofForm? : Form → Option Target
  | .object [("table", .str id)] => some (table id)
  | .object [("orchestrator", .str id)] => some (flow id)
  | _ => none

/-- The form of a source. -/
def Source.toForm : Source → Form
  | input field => .object [("input", .str field)]
  | step name path =>
      let path := Form.unlessNone FieldPath.toForm "path" path
      .object [("step", .object (("step", .str name) :: path))]
  | constant v => .object [("constant", v.toForm)]

/-- The source that a form is. -/
def Source.ofForm? : Form → Option Source
  | .object [("input", .str field)] => some (input field)
  | .object [("step", .object parts)] => do
      let name ← Form.required Form.str? parts "step"
      let path ← Form.optional FieldPath.ofForm? parts "path"
      return step name path
  | .object [("constant", form)] => (Value.ofForm? form).map constant
  | _ => none

/-- The form of a binding. -/
def Binding.toForm (b : Binding) : Form :=
  .object [("field", .str b.field), ("source", b.source.toForm)]

/-- The binding that a form is. -/
def Binding.ofForm? (form : Form) : Option Binding := do
  let parts ← form.parts?
  let field ← Form.required Form.str? parts "field"
  let source ← Form.required Source.ofForm? parts "source"
  return { field, source }

/-- The form of a step. -/
def Step.toForm (s : Step) : Form :=
  .object ([("name", .str s.name), ("target", s.target.toForm),
    ("inputs", .list (s.inputs.map Binding.toForm))]
    ++ Form.unlessNone FieldCondition.toForm "gate" s.gate
    ++ Form.unlessNone Form.str "gate_message" s.gateMessage
    ++ Form.unlessNone (fun n => .int n.toNat) "timeout_ms" s.budget)

/-- The step that a form is. -/
def Step.ofForm? (form : Form) : Option Step := do
  let parts ← form.parts?
  let name ← Form.required Form.str? parts "name"
  let target ← Form.required Target.ofForm? parts "target"
  let inputs ← Form.required (Form.listOf? Binding.ofForm?) parts "inputs"
  let gate ← Form.optional FieldCondition.ofForm? parts "gate"
  let gateMessage ← Form.optional Form.str? parts "gate_message"
  let budget ← Form.optional Form.natural? parts "timeout_ms"
  return { name, target, inputs, gate, gateMessage, budget := budget.map UInt64.ofNat }

/-- The form of an output. -/
def Output.toForm (o : Output) : Form :=
  .object [("name", .str o.name), ("type", o.type.toForm), ("source", o.source.toForm)]

/-- The output that a form is. -/
def Output.ofForm? (form : Form) : Option Output := do
  let parts ← form.parts?
  let name ← Form.required Form.str? parts "name"
  let type ← Form.required ValueType.ofForm? parts "type"
  let source ← Form.required Source.ofForm? parts "source"
  return { name, type, source }

/-- The form of a flow. -/
def Flow.toForm (flow : Flow) : Form :=
  .object [("orchestrator_id", .str flow.id), ("input", flow.input.toForm),
    ("steps", .list (flow.steps.map Step.toForm)),
    ("outputs", .list (flow.outputs.map Output.toForm))]

/-- The flow that a form is. -/
def Flow.ofForm? (form : Form) : Option Flow := do
  let parts ← form.parts?
  let id ← Form.required Form.str? parts "orchestrator_id"
  let input ← Form.required Shape.ofForm? parts "input"
  let steps ← Form.required (Form.listOf? Step.ofForm?) parts "steps"
  let outputs ← Form.required (Form.listOf? Output.ofForm?) parts "outputs"
  return { id, input, steps, outputs }

/-! ## Limits -/

/-- The form of limits. -/
def Limits.toForm (limits : Limits) : Form :=
  .object [("max_rules", .int limits.maxRules), ("max_steps", .int limits.maxSteps),
    ("max_nesting_depth", .int limits.maxNestingDepth),
    ("max_condition_depth", .int limits.maxConditionDepth),
    ("max_condition_nodes", .int limits.maxConditionNodes)]

/-- The limits that a form is. -/
def Limits.ofForm? (form : Form) : Option Limits := do
  let parts ← form.parts?
  let maxRules ← Form.required Form.natural? parts "max_rules"
  let maxSteps ← Form.required Form.natural? parts "max_steps"
  let maxNestingDepth ← Form.required Form.natural? parts "max_nesting_depth"
  let maxConditionDepth ← Form.required Form.natural? parts "max_condition_depth"
  let maxConditionNodes ← Form.required Form.natural? parts "max_condition_nodes"
  return { maxRules, maxSteps, maxNestingDepth, maxConditionDepth, maxConditionNodes }

end Verdict
