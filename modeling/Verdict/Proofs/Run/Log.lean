/-
  Logs — the events of a run, and what they have to be.

  1. **Events** — `recording` surroundings keep all events beside their state, in the order in
     which they are recorded.  `eventsOf` is what a run leaves there.

  2. **Accounts** — the account of a run holds its report and the accounts of its calls, the first
     call first, as deep as calls go.  `accountedRun` keeps the account beside the state; nobody
     reads it, and forgetting it gives the run as it is (`run_eq_accountedRun`).

  3. **Specification** — `Account.log` says which events an account stands for: call by call the
     log of the target, then that the step has entered the context, if it has, then what its gate
     has said, if it has one; at last the end of the run, once.

  4. **Truth** — `Account.Faithful`: an account says of every run, on every level, what it has
     called, which values have entered its context, and which gate has stopped it, if one has.
-/
import Verdict.Proofs.Run.Coherence
import Verdict.Proofs.Table.FirstMatch

namespace Verdict

/-- The steps of a registered flow. -/
def Registry.stepsOf (registry : Registry) (flow : String) : List Step :=
  (registry.flows.get? flow).elim [] (·.flow.steps)

namespace Run

variable {σ : Type}

/-! ## Events -/

/-- The surroundings that also keep all events. -/
def Surroundings.recording (env : Surroundings σ) : Surroundings (σ × List Event) where
  clock s := ((env.clock s.1).1, (env.clock s.1).2, s.2)
  cancelled s flag := env.cancelled s.1 flag
  record event s := (env.record event s.1, s.2 ++ [event])

/-- The events of a run, the first one first. -/
def eventsOf (env : Surroundings σ) (registry : Registry) (flow : String) (input : Record)
    (control : Control) (s : σ) : List Event :=
  (run env.recording registry flow input control (s, [])).2.2

/-- Is this a gate that did not hold? -/
def Event.isRefusal : Event → Bool
  | .gateEvaluated _ _ _ _ false => true
  | _ => false

/-! ## Accounts -/

/-- A call of a target, with all calls inside it. -/
inductive Account where
  | table (table : String) (input : Record) (result : Except EvaluationError Answer)
  | run (flow : String) (input : Record) (report : Report) (calls : List Account)

namespace Account

/-- What was called. -/
def target : Account → Target
  | table id _ _ => .table id
  | run id _ _ _ => .flow id

/-- What it was called with. -/
def input : Account → Record
  | table _ input _ => input
  | run _ input _ _ => input

/-- What the caller was answered. -/
def answer : Account → Except StepFailure Value
  | table _ _ (.ok a) => .ok a.value
  | table _ _ (.error e) => .error (.evaluation e)
  | run _ _ ⟨_, _, .ok output⟩ _ => .ok (.record output)
  | run _ _ ⟨_, _, .error e⟩ _ => .error (.run e)

end Account

/-- The surroundings beside a list of accounts, which they leave alone. -/
def Surroundings.accounting (env : Surroundings σ) : Surroundings (σ × List Account) where
  clock s := ((env.clock s.1).1, (env.clock s.1).2, s.2)
  cancelled s flag := env.cancelled s.1 flag
  record event s := (env.record event s.1, s.2)

/-- Calls registered targets, flows at most `levels` deep, and adds an account of every call.  A
    flow that is called begins an account of its own. -/
def accountingInvoker (env : Surroundings σ) (registry : Registry) :
    (levels : Nat) → Invoker (σ × List Account)
  | _, .table table, input, _, s =>
      let (result, s₁) := evaluate env registry table input s.1
      let call := Account.table table input result
      (call.answer, s₁, s.2 ++ [call])
  | 0, .flow flow, _, _, s => (.error (.run (.unknownFlow flow)), s)
  | levels + 1, .flow flow, input, control, s =>
      let (report, s₁, calls) := runWith env.accounting registry
        (accountingInvoker env registry levels) flow input control (s.1, [])
      let call := Account.run flow input report calls
      (call.answer, s₁, s.2 ++ [call])

/-- Runs a registered flow, and keeps the accounts of its calls. -/
def accountedRun (env : Surroundings σ) (registry : Registry) (flow : String) (input : Record)
    (control : Control) (s : σ) : Report × σ × List Account :=
  runWith env.accounting registry (accountingInvoker env registry (nestingDepth registry flow))
    flow input control (s, [])

/-! ## The specification of a log -/

/-- What a run records of the gate of a step, if there is one: what it says of a context. -/
def gateEvents (flow : String) (context : Context) (index : Nat) (step : Step) : List Event :=
  (step.gate.map fun gate => .gateEvaluated flow step.name index gate.text
    (gate.holds (FieldTest.holds context.lookup))).toList

/-- What a run records of a step whose target was called: that the step has entered the context, if
    it has, and then what its gate has said of the context as it was at that time. -/
def stepEvents (flow : String) (context : Context) (index : Nat) (step : Step) : List Event :=
  if index < context.length then
    .stepCompleted flow step.name index
      :: gateEvents flow (context.upTo (index + 1)) index step
  else []

namespace Account

mutual

/-- The events that an account stands for. -/
def log (registry : Registry) : Account → List Event
  | table id _ result => [.ofEvaluation id result]
  | run flow _ report calls =>
      logCalls registry flow report.context 0 (registry.stepsOf flow) calls
        ++ [.ofOutcome flow report.context.length report.outcome]

/-- The events of the calls of a run, of which the first is the call of step `index`. -/
def logCalls (registry : Registry) (flow : String) (context : Context) :
    (index : Nat) → List Step → List Account → List Event
  | index, step :: steps, call :: calls =>
      call.log registry ++ stepEvents flow context index step
        ++ logCalls registry flow context (index + 1) steps calls
  | _, _, _ => []

end

/-! ## The truth of an account -/

/-- What was called, and what has entered the context. -/
structure Linked (f : AdmittedFlow) (input : Record) (context : Context) (calls : List Account) :
    Prop where
  /-- The calls are those of the first steps, in order, each with what its bindings have read. -/
  called : ∀ (i : Nat) (call : Account), calls[i]? = some call →
    ∃ step, f.flow.steps[i]? = some step ∧ call.target = step.target
      ∧ bindInputs step i input (context.upTo i) = .ok call.input
  /-- The context holds the answers of the first calls, in order, under the names of the steps. -/
  entered : ∀ (i : Nat) (name : String) (v : Value), context.entries[i]? = some (name, v) →
    ∃ step expected call w, f.flow.steps[i]? = some step
      ∧ f.facts.stepOutputs[i]? = some expected ∧ calls[i]? = some call ∧ name = step.name
      ∧ call.answer = .ok w ∧ v = expected.coerce w
  /-- At most one call is ahead of the context. -/
  ahead : calls.length ≤ context.length + 1

/-- Which gate has failed, if one has. -/
structure Gated (f : AdmittedFlow) (report : Report) (calls : List Account) : Prop where
  /-- It is that of the step that was called last. -/
  last : ∀ (i : Nat) (step : Step), f.flow.steps[i]? = some step →
    (stepEvents f.flow.id report.context i step).any Event.isRefusal = true → i + 1 = calls.length
  /-- The run reports it, and reports no failed gate otherwise. -/
  reported : (∃ (i : Nat) (step : Step), f.flow.steps[i]? = some step
      ∧ (stepEvents f.flow.id report.context i step).any Event.isRefusal = true)
    ↔ ∃ step i condition note, report.outcome = .error (.gateFailed step i condition note)

/-- An account that is true, and so are all accounts inside it. -/
inductive Faithful (registry : Registry) : Account → Prop
  /-- The answer of a table is the value of the rule that it names, the first one that holds. -/
  | table {id : String} {t : Table} {input : Record} (found : registry.tables.get? id = some t)
      (ruled : ∀ a, t.evaluate input = .ok a → ∃ rule, t.IsFirst input a.ruleIndex rule
        ∧ rule.id = a.ruleId ∧ t.resultOf rule input = .ok a.value) :
      Faithful registry (.table id input (t.evaluate input))
  /-- A flow that is unknown calls nothing. -/
  | unknown {flow : String} {input : Record} (absent : registry.flows.get? flow = none) :
      Faithful registry (.run flow input ⟨.pending, .empty, .error (.unknownFlow flow)⟩ [])
  | run {flow : String} {f : AdmittedFlow} {input : Record} {report : Report}
      {calls : List Account} (found : registry.flows.get? flow = some f)
      (linked : Linked f input report.context calls) (gated : Gated f report calls)
      (inside : ∀ call ∈ calls, Faithful registry call) :
      Faithful registry (.run flow input report calls)

end Account

/-! ## What is kept beside a run -/

theorem Surroundings.recording_over (env : Surroundings σ) : env.recording.Over env Prod.fst where
  clock _ := rfl
  cancelled _ _ := rfl
  record _ _ := rfl

theorem Surroundings.accounting_over (env : Surroundings σ) :
    env.accounting.Over env Prod.fst where
  clock _ := rfl
  cancelled _ _ := rfl
  record _ _ := rfl

/-- **Every level** that keeps accounts answers as the one that keeps none.  A flow that is called
    begins its own accounts: the induction hypothesis is used on a run that starts without any. -/
theorem accountingInvoker_over (env : Surroundings σ) (registry : Registry) (levels : Nat) :
    (accountingInvoker env registry levels).Over (invoker env registry levels) Prod.fst := by
  intro target input control s
  induction levels, target using levels_induction generalizing input control s with
  | table levels table =>
      rw [accountingInvoker, invoker]
      cases evaluate env registry table input s.1 with
      | mk result s' => cases result <;> rfl
  | spent flow => rfl
  | flow levels flow ih =>
      -- The accounts that the caller has so far are not handed down.
      have hover : runWith env registry (invoker env registry levels) flow input control s.1
          = forgetting Prod.fst (runWith env.accounting registry
              (accountingInvoker env registry levels) flow input control (s.1, [])) :=
        runWith_over env.accounting_over ih registry flow input control (s.1, [])
      rw [accountingInvoker, invoker, hover]
      cases runWith env.accounting registry (accountingInvoker env registry levels) flow input
          control (s.1, []) with
      | mk report s' =>
          obtain ⟨status, context, outcome⟩ := report
          cases outcome <;> rfl

/-- **Forgetting the accounts** gives the run as it is: nobody reads them, so what is said of the
    accounted run is said of the run. -/
theorem run_eq_accountedRun (env : Surroundings σ) (registry : Registry) (flow : String)
    (input : Record) (control : Control) (s : σ) :
    run env registry flow input control s
      = forgetting Prod.fst (accountedRun env registry flow input control s) :=
  runWith_over env.accounting_over (accountingInvoker_over env registry _) registry flow input
    control (s, [])

/-- **Forgetting the events** gives the run as it is. -/
theorem run_eq_recording (env : Surroundings σ) (registry : Registry) (flow : String)
    (input : Record) (control : Control) (s : σ) (events : List Event) :
    run env registry flow input control s
      = forgetting Prod.fst (run env.recording registry flow input control (s, events)) :=
  run_over env.recording_over registry flow input control (s, events)

end Run

end Verdict
