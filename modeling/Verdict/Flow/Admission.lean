/-
  Admission of flows — every reference points BACKWARDS, every type lines up.

  1. **Specification** — `Flow.check`, in the order in which objections are reported: at least one
     step and not too many; an input shape without defects; then step by step its name, budget,
     gate message, target, nesting, bindings and gate; then the outputs; last the output shape.

  2. **Program** — the walk over the steps carries what the steps in front produce.  A binding of a
     step sees the steps in front of it, a gate sees its own step too, an output sees all.

  3. **Facts** — an admitted flow is known by its output shape, its nesting depth and the result
     types of its steps.  Targets have to be registered already, so flows never call themselves.

  Core only.
-/
import Verdict.Table.Admission

namespace Verdict

/-- What admission finds out about a flow. -/
structure FlowFacts where
  outputShape : Shape
  /-- One more than the deepest target. -/
  nestingDepth : Nat
  /-- The result type of each step. -/
  stepOutputs : List ValueType
  deriving DecidableEq

/-- Steps with their result types, in order. -/
abbrev Produced := List (String × ValueType)

/-- The result type of a step. -/
def Produced.type? (produced : Produced) (step : String) : Option ValueType :=
  (produced.find? (·.1 == step)).map (·.2)

/-- The type that a gate finds at a path that begins with the name of a step. -/
def Produced.lookup (produced : Produced) (p : FieldPath) : Option ValueType :=
  (produced.type? p.head.text).bind (·.at? p.restNames)

namespace Flow

/-! ## Sources -/

/-- The result type of a step that `reader` reads. -/
def stepType (flow : Flow) (produced : Produced) (reader : SourceReader) (step : String) :
    Except DefinitionError ValueType :=
  match produced.type? step with
  | some type => .ok type
  | none =>
      if flow.steps.any (·.name == step) then .error (.forwardReference flow.id reader step)
      else .error (.unknownStep flow.id reader step)

/-- The type of a source that `reader` reads. -/
def sourceType (flow : Flow) (produced : Produced) (reader : SourceReader) :
    Source → Except DefinitionError ValueType
  | .input field =>
      match flow.input.type? field with
      | some type => .ok type
      | none => .error (.unknownInputField flow.id reader field)
  | .step step path => do
      let type ← flow.stepType produced reader step
      match path with
      | none => return type
      | some path =>
          match type.at? path.names with
          | some inner => return inner
          | none => throw (.invalidStepPath flow.id reader step path)
  | .constant v => .ok (ValueType.of v)

/-- Checks that `reader` may take a value of type `expected` from a source. -/
def checkSource (flow : Flow) (produced : Produced) (reader : SourceReader)
    (expected : ValueType) (source : Source) : Except DefinitionError Unit := do
  let found ← flow.sourceType produced reader source
  ensure (expected.acceptsType found) (.sourceMismatch flow.id reader expected found)

/-! ## Bindings, gates and outputs -/

/-- Checks bindings one by one, where `bound` are the fields bound in front of them. -/
def checkBindings (flow : Flow) (produced : Produced) (step : String) (target : Shape)
    (bound : List String) : List Binding → Except DefinitionError Unit
  | [] => .ok ()
  | b :: bindings =>
      match target.type? b.field with
      | none => .error (.unknownBindingField flow.id step b.field)
      | some expected => do
          ensure (!bound.contains b.field) (.duplicateBinding flow.id step b.field)
          flow.checkSource produced (.binding step b.field) expected b.source
          flow.checkBindings produced step target (b.field :: bound) bindings

/-- Checks that a step binds every field of its target. -/
def checkComplete (flow : Flow) (step : Step) (target : Shape) : Except DefinitionError Unit :=
  target.names.forM fun field =>
    ensure (step.inputs.any (·.field == field)) (.missingBinding flow.id step.name field)

/-- Checks the gate of a step. -/
def checkGate (flow : Flow) (limits : Limits) (produced : Produced) (step : String)
    (gate : FieldCondition) : Except DefinitionError Unit := do
  let owner := ConditionOwner.gate step flow.id
  gate.checkBounds owner limits
  gate.leaves.forM fun test =>
    (flow.stepType produced (.gate step) test.path.head.text).map fun _ => ()
  gate.checkTests owner produced.lookup

/-- Checks outputs one by one, where `named` are the names of those in front. -/
def checkOutputs (flow : Flow) (produced : Produced) (named : List String) :
    List Output → Except DefinitionError Unit
  | [] => .ok ()
  | o :: outputs => do
      ensure (!named.contains o.name) (.duplicateOutput flow.id o.name)
      flow.checkSource produced (.output o.name) o.type o.source
      flow.checkOutputs produced (o.name :: named) outputs

/-! ## Steps -/

/-- Checks the name, the budget and the gate message of a step. -/
def checkHead (flow : Flow) (produced : Produced) (step : Step) : Except DefinitionError Unit := do
  ensure (isIdentifier step.name) (.invalidStepName flow.id step.name)
  ensure (produced.type? step.name).isNone (.duplicateStep flow.id step.name)
  ensure (step.budget != some 0) (.zeroBudget flow.id step.name)
  ensure (step.gate.isSome || step.gateMessage.isNone) (.messageWithoutGate flow.id step.name)

/-- Checks a step whose target has the given signature; returns what is produced after it. -/
def checkBody (flow : Flow) (limits : Limits) (produced : Produced) (step : Step)
    (target : Signature) : Except DefinitionError Produced := do
  flow.checkBindings produced step.name target.input [] step.inputs
  flow.checkComplete step target.input
  let produced := produced ++ [(step.name, target.output)]
  match step.gate with
  | none => return produced
  | some gate =>
      flow.checkGate limits produced step.name gate
      return produced

/-- Checks steps one by one; `depth` is the nesting depth of the flow up to here. -/
def checkSteps (flow : Flow) (catalog : Target → Option Signature) (limits : Limits)
    (produced : Produced) (depth : Nat) : List Step → Except DefinitionError (Produced × Nat)
  | [] => .ok (produced, depth)
  | step :: steps => do
      flow.checkHead produced step
      match catalog step.target with
      | none => throw (.unknownTarget flow.id step.name step.target)
      | some target =>
          let depth := max depth (target.nestingDepth + 1)
          ensure (depth ≤ limits.maxNestingDepth)
            (.nestingTooDeep flow.id depth limits.maxNestingDepth)
          let produced ← flow.checkBody limits produced step target
          flow.checkSteps catalog limits produced depth steps

/-- Checks a flow against the registered targets and the limits. -/
def check (flow : Flow) (catalog : Target → Option Signature) (limits : Limits) :
    Except DefinitionError FlowFacts := do
  ensure (!flow.steps.isEmpty) (.emptyFlow flow.id)
  ensure (flow.steps.length ≤ limits.maxSteps)
    (.tooManySteps flow.id flow.steps.length limits.maxSteps)
  forbid (flow.input.defect?.map (.badShape (.flowInput flow.id)))
  let (produced, depth) ← flow.checkSteps catalog limits [] 1 flow.steps
  flow.checkOutputs produced [] flow.outputs
  forbid (flow.outputShape.defect?.map (.badShape (.flowOutput flow.id)))
  return ⟨flow.outputShape, depth, produced.map (·.2)⟩

end Flow

end Verdict
