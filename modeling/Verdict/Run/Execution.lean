/-
  Execution — one run of a flow, strictly step after step.

  1. **Surroundings** — a run meets a clock, cancellation flags and a place for events, and it
     calls the targets of its steps through an INVOKER.  All of them are parameters and act on a
     state of their own choosing, so that time may pass and flags may rise at every reading of
     the clock, at every event and during every call.

  2. **Boundaries** — a run looks at its control BETWEEN steps only: before each step, and once
     more before the output is projected.  While a target works nothing is looked at.

  3. **Budgets** — a step with a budget calls its target under a narrowed control.  A nested run
     that was stopped by nothing but the budget, and a value that came too late, both mean that
     the step timed out; a nested run that was stopped while this run has to stop as well stops
     this run.

  4. **Specification** — the first failure ends the run; there is no partial output.  Every run
     records its end, and nothing after it.

  Core only.
-/
import Verdict.Registry
import Verdict.Run.Context
import Verdict.Run.Event

namespace Verdict.Run

variable {σ : Type}

/-! ## What a run meets -/

/-- A clock, cancellation flags and a place for events, acting on a state. -/
structure Surroundings (σ : Type) where
  clock : σ → Instant × σ
  cancelled : σ → Flag → Bool
  record : Event → σ → σ

/-- Calls a target with its input, under a control. -/
abbrev Invoker (σ : Type) := Target → Record → Control → σ → Except StepFailure Value × σ

/-- Why a run has to stop now, if it has to; a raised flag wins over a deadline. -/
def interruption? (env : Surroundings σ) (control : Control) (s : σ) :
    Option Interruption × σ :=
  if env.cancelled s control.flag then (some .cancelled, s)
  else if control.deadline.isNone then (none, s)
  else
    let (now, s) := env.clock s
    (if control.isOverdue now then some .deadlineExceeded else none, s)

/-! ## What a run reports -/

/-- How far a run is. -/
inductive Status where
  | pending
  | running (index : Nat)
  | succeeded
  | failedAtStep (index : Nat) (step : String)
  | cancelled (completed : Nat)
  deriving DecidableEq, Repr

/-- The end of a run: its status, the completed steps, and its output or its failure. -/
structure Report where
  status : Status
  context : Context
  outcome : Except RunError Record

/-- Ends a run. -/
def finish (env : Surroundings σ) (flow : String) (status : Status) (context : Context)
    (outcome : Except RunError Record) (s : σ) : Report × σ :=
  (⟨status, context, outcome⟩, env.record (.ofOutcome flow context.length outcome) s)

/-- Ends a run between two steps. -/
def interrupt (env : Surroundings σ) (flow : String) (context : Context) (why : Interruption)
    (s : σ) : Report × σ :=
  finish env flow (.cancelled context.length) context
    (.error (.ofInterruption context.length context.last? why)) s

/-! ## Sources -/

/-- The value of a source. -/
def resolve? (input : Record) (context : Context) : Source → Option Value
  | .input field => input.get? field
  | .step name none => context.get? name
  | .step name (some path) => (context.get? name).bind (·.at? path.names)
  | .constant v => some v

/-- The record of named sources; `reader` and `index` say who reads a source that is not there. -/
def gather (input : Record) (context : Context) (reader : String → String) (index : Nat)
    (sources : List (String × Source)) : Except RunError Record :=
  sources.foldlM
    (fun record (name, source) =>
      match resolve? input context source with
      | some v => .ok (record.insert name v)
      | none => .error (.unresolvedSource (reader name) index source.text))
    .nil

/-- The input for the target of a step. -/
def bindInputs (step : Step) (index : Nat) (input : Record) (context : Context) :
    Except RunError Record :=
  gather input context (fun _ => step.name) index (step.inputs.map fun b => (b.field, b.source))

/-- The output of a flow whose steps are completed. -/
def projectOutputs (flow : Flow) (input : Record) (context : Context) : Except RunError Record :=
  (gather input context ("output." ++ ·) flow.steps.length
    (flow.outputs.map fun o => (o.name, o.source))).map (·.widenTo flow.outputShape)

/-! ## One step -/

/-- How the call of a target ended. -/
inductive CallEnd where
  | value (v : Value)
  | timedOut (budget : UInt64)
  | interrupted (why : Interruption)
  | failed (cause : StepFailure)

/-- Calls the target of a step, within its budget if it has one. -/
def call (env : Surroundings σ) (invoke : Invoker σ) (control : Control) (step : Step)
    (input : Record) (s : σ) : CallEnd × σ :=
  match step.budget with
  | none =>
      match invoke step.target input control s with
      | (.ok v, s) => (.value v, s)
      | (.error cause, s) =>
          match cause.interruption? with
          | some why => (.interrupted why, s)
          | none => (.failed cause, s)
  | some budget =>
      let span := Duration.milliseconds budget.toNat
      let (now, s) := env.clock s
      let narrowed := control.within now span
      let (started, s) := env.clock s
      match invoke step.target input narrowed s with
      | (.ok v, s) =>
          let (now, s) := env.clock s
          (if span < now - started then .timedOut budget else .value v, s)
      | (.error cause, s) =>
          match cause.interruption? with
          | none => (.failed cause, s)
          | some why =>
              let (own, s) := interruption? env control s
              (if own.isNone then .timedOut budget else .interrupted why, s)

/-- How far a step came; a failed gate leaves its step completed. -/
inductive StepEnd where
  | completed (context : Context)
  | failed (context : Context) (error : RunError)
  | interrupted (why : Interruption)

/-- Asks the gate of a completed step, if it has one. -/
def askGate (env : Surroundings σ) (flow : String) (step : Step) (index : Nat)
    (context : Context) (s : σ) : StepEnd × σ :=
  match step.gate with
  | none => (.completed context, s)
  | some gate =>
      let passed := gate.holds (FieldTest.holds context.lookup)
      let s := env.record (.gateEvaluated flow step.name index gate.text passed) s
      if passed then (.completed context, s)
      else (.failed context (.gateFailed step.name index gate.text step.gateMessage), s)

/-- Runs one step, from its bindings to its gate. -/
def runStep (env : Surroundings σ) (invoke : Invoker σ) (control : Control) (flow : String)
    (input : Record) (index : Nat) (step : Step) (expected : ValueType) (context : Context)
    (s : σ) : StepEnd × σ :=
  match bindInputs step index input context with
  | .error e => (.failed context e, s)
  | .ok bound =>
      match call env invoke control step bound s with
      | (.interrupted why, s) => (.interrupted why, s)
      | (.timedOut budget, s) => (.failed context (.stepTimedOut step.name index budget), s)
      | (.failed cause, s) => (.failed context (.stepFailed step.name index cause), s)
      | (.value v, s) =>
          if expected.accepts v then
            let context := context.push step.name (expected.coerce v)
            let s := env.record (.stepCompleted flow step.name index) s
            askGate env flow step index context s
          else (.failed context (.resultMismatch step.name index expected v.kind), s)

/-! ## All steps -/

/-- Runs the remaining steps, of which the first has the given index. -/
def runSteps (env : Surroundings σ) (invoke : Invoker σ) (control : Control) (flow : Flow)
    (input : Record) (status : Status) (index : Nat) (context : Context) :
    List (Step × ValueType) → σ → Report × σ
  | [], s =>
      match interruption? env control s with
      | (some why, s) => interrupt env flow.id context why s
      | (none, s) =>
          match projectOutputs flow input context with
          | .ok output => finish env flow.id .succeeded context (.ok output) s
          | .error e => finish env flow.id status context (.error e) s
  | (step, expected) :: steps, s =>
      match interruption? env control s with
      | (some why, s) => interrupt env flow.id context why s
      | (none, s) =>
          match runStep env invoke control flow.id input index step expected context s with
          | (.completed context, s) =>
              runSteps env invoke control flow input (.running index) (index + 1) context steps s
          | (.failed context e, s) =>
              finish env flow.id (.failedAtStep index step.name) context (.error e) s
          | (.interrupted why, s) => interrupt env flow.id context why s

/-- Runs an admitted flow. -/
def execute (env : Surroundings σ) (invoke : Invoker σ) (control : Control) (f : AdmittedFlow)
    (input : Record) (s : σ) : Report × σ :=
  match f.flow.input.check input with
  | .error violation =>
      finish env f.flow.id .pending .empty (.error (.invalidInput f.flow.id violation)) s
  | .ok () =>
      runSteps env invoke control f.flow input .pending 0 .empty
        (f.flow.steps.zip f.facts.stepOutputs) s

end Verdict.Run
