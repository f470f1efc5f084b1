/-
  Engines — tables evaluated and flows run over one registry.

  1. **Program** — `evaluate` answers from a table and records that it did.  `runWith` runs a flow
     through a given invoker.  `invoker` calls tables, and flows with as many levels of nesting
     as are left; it recurses on that number.

  2. **Levels** — a flow is run with its own nesting depth for a number.  Its targets are nested
     less deep than it is, so the number never runs out.

  Core only.
-/
import Verdict.Run.Execution

namespace Verdict.Run

variable {σ : Type}

/-- Evaluates a registered table. -/
def evaluate (env : Surroundings σ) (registry : Registry) (table : String) (input : Record)
    (s : σ) : Except EvaluationError Answer × σ :=
  let result :=
    match registry.tables.get? table with
    | some t => t.evaluate input
    | none => .error (.unknownTable table)
  (result, env.record (.ofEvaluation table result) s)

/-- Runs a registered flow whose targets are called through `invoke`. -/
def runWith (env : Surroundings σ) (registry : Registry) (invoke : Invoker σ) (flow : String)
    (input : Record) (control : Control) (s : σ) : Report × σ :=
  match registry.flows.get? flow with
  | some f => execute env invoke control f input s
  | none => finish env flow .pending .empty (.error (.unknownFlow flow)) s

/-- Calls registered targets, flows at most `levels` deep. -/
def invoker (env : Surroundings σ) (registry : Registry) : (levels : Nat) → Invoker σ
  | _, .table table, input, _, s =>
      match evaluate env registry table input s with
      | (.ok answer, s) => (.ok answer.value, s)
      | (.error e, s) => (.error (.evaluation e), s)
  | 0, .flow flow, _, _, s => (.error (.run (.unknownFlow flow)), s)
  | levels + 1, .flow flow, input, control, s =>
      match runWith env registry (invoker env registry levels) flow input control s with
      | (⟨_, _, .ok output⟩, s) => (.ok (.record output), s)
      | (⟨_, _, .error e⟩, s) => (.error (.run e), s)

/-- How deep flows are nested in a registered flow. -/
def nestingDepth (registry : Registry) (flow : String) : Nat :=
  match registry.flows.get? flow with
  | some f => f.facts.nestingDepth
  | none => 0

/-- Runs a registered flow. -/
def run (env : Surroundings σ) (registry : Registry) (flow : String) (input : Record)
    (control : Control) (s : σ) : Report × σ :=
  runWith env registry (invoker env registry (nestingDepth registry flow)) flow input control s

/-- A new control of a flag, under a deadline for every run if there is one. -/
def freshControl (flag : Flag) (now : Instant) : (deadline : Option Duration) → Control
  | some span => (Control.new flag).withTimeout now span
  | none => .new flag

end Verdict.Run
