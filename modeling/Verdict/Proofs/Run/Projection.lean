/-
  Projections — surroundings that keep more in their state change nothing of what a run does.

  1. **Specification** — `Surroundings.Over` and `Invoker.Over`: what is kept besides can be
     forgotten.  Forgetting it before or after a reading of the clock, an event or a call comes to
     the same.

  2. **Theorem** — then forgetting it before or after a WHOLE RUN comes to the same
     (`execute_over`): the report is the same, and so is what is left of the state.  Whatever is
     written down beside a run, be it a list of calls or a trace of all that happens, is therefore
     about the run itself.  What the engine calls is the same on every level, and so its runs are
     the same without any assumption on an invoker (`run_over`).

  Core only.
-/
import Verdict.Run.Engine

namespace Verdict.Run

variable {σ τ : Type}

/-- A result, and the part of a state that is not forgotten. -/
abbrev forgetting {α : Type} (forget : τ → σ) (p : α × τ) : α × σ := (p.1, forget p.2)

/-- The surroundings do to their state what `env` does to the part that is not forgotten. -/
structure Surroundings.Over (rich : Surroundings τ) (env : Surroundings σ) (forget : τ → σ) :
    Prop where
  clock : ∀ s, env.clock (forget s) = forgetting forget (rich.clock s)
  cancelled : ∀ s flag, env.cancelled (forget s) flag = rich.cancelled s flag
  record : ∀ event s, env.record event (forget s) = forget (rich.record event s)

/-- The invoker answers as `invoke` does, which sees the part that is not forgotten. -/
def Invoker.Over (rich : Invoker τ) (invoke : Invoker σ) (forget : τ → σ) : Prop :=
  ∀ target input control s,
    invoke target input control (forget s) = forgetting forget (rich target input control s)

section

variable {rich : Surroundings τ} {env : Surroundings σ} {richly : Invoker τ} {invoke : Invoker σ}
  {forget : τ → σ} (henv : rich.Over env forget) (hinvoke : richly.Over invoke forget)
include henv

/-! ## Stage by stage -/

theorem interruption?_over (control : Control) (s : τ) :
    interruption? env control (forget s) = forgetting forget (interruption? rich control s) := by
  unfold interruption?
  rw [henv.cancelled, henv.clock]
  split
  · rfl
  · split <;> rfl

theorem finish_over (flow : String) (status : Status) (context : Context)
    (outcome : Except RunError Record) (s : τ) :
    finish env flow status context outcome (forget s)
      = forgetting forget (finish rich flow status context outcome s) := by
  simp only [finish, henv.record]

theorem askGate_over (flow : String) (step : Step) (index : Nat) (context : Context) (s : τ) :
    askGate env flow step index context (forget s)
      = forgetting forget (askGate rich flow step index context s) := by
  unfold askGate
  cases step.gate with
  | none => rfl
  | some gate =>
      dsimp only
      rw [henv.record]
      split <;> rfl

include hinvoke

theorem call_over (control : Control) (step : Step) (input : Record) (s : τ) :
    call env invoke control step input (forget s)
      = forgetting forget (call rich richly control step input s) := by
  unfold call
  cases step.budget with
  | none =>
      -- Only the invoker is asked.
      simp only [hinvoke _ _ _ _]
      cases richly step.target input control s with
      | mk result s' =>
          cases result with
          | ok v => rfl
          | error cause =>
              dsimp only
              cases cause.interruption? <;> rfl
  | some budget =>
      -- The clock is read before the invoker is asked, and once more after it has answered.
      simp only [henv.clock, hinvoke _ _ _ _]
      cases richly step.target input _ _ with
      | mk result s' =>
          cases result with
          | ok v => simp only [henv.clock]
          | error cause =>
              dsimp only
              cases cause.interruption? with
              | none => rfl
              | some why => simp only [interruption?_over henv]

theorem runStep_over (control : Control) (flow : String) (input : Record) (index : Nat)
    (step : Step) (expected : ValueType) (context : Context) (s : τ) :
    runStep env invoke control flow input index step expected context (forget s)
      = forgetting forget
          (runStep rich richly control flow input index step expected context s) := by
  unfold runStep
  cases bindInputs step index input context with
  | error e => rfl
  | ok bound =>
      dsimp only
      rw [call_over henv hinvoke]
      cases call rich richly control step bound s with
      | mk ending s' =>
          cases ending with
          | interrupted why => rfl
          | timedOut budget => rfl
          | failed cause => rfl
          | value v =>
              dsimp only
              split
              · rw [henv.record]
                exact askGate_over henv flow step index _ _
              · rfl

/-! ## The whole run -/

/-- The loop, by induction on the steps that remain.  Every way out of it ends the run with an
    event, in both surroundings alike; only a step that completes leads back into it. -/
theorem runSteps_over (control : Control) (flow : Flow) (input : Record) (status : Status)
    (index : Nat) (context : Context) (steps : List (Step × ValueType)) (s : τ) :
    runSteps env invoke control flow input status index context steps (forget s)
      = forgetting forget
          (runSteps rich richly control flow input status index context steps s) := by
  induction steps generalizing status index context s with
  | nil =>
      rw [runSteps, runSteps, interruption?_over henv]
      cases interruption? rich control s with
      | mk why s₁ =>
          cases why with
          | some why => exact finish_over henv _ _ _ _ _
          | none =>
              dsimp only
              cases projectOutputs flow input context <;> exact finish_over henv _ _ _ _ _
  | cons first steps ih =>
      obtain ⟨step, expected⟩ := first
      rw [runSteps, runSteps, interruption?_over henv]
      cases interruption? rich control s with
      | mk why s₁ =>
          cases why with
          | some why => exact finish_over henv _ _ _ _ _
          | none =>
              dsimp only
              rw [runStep_over henv hinvoke]
              cases runStep rich richly control flow.id input index step expected context s₁ with
              | mk ending s₂ =>
                  cases ending with
                  | failed context' e => exact finish_over henv _ _ _ _ _
                  | interrupted why => exact finish_over henv _ _ _ _ _
                  | completed context' => exact ih (.running index) (index + 1) context' s₂

/-- **Forgetting before the run is forgetting after it.**  Neither the invoker nor the surroundings
    are known; all that is asked of them is that they do not look at what is forgotten. -/
theorem execute_over (control : Control) (f : AdmittedFlow) (input : Record) (s : τ) :
    execute env invoke control f input (forget s)
      = forgetting forget (execute rich richly control f input s) := by
  unfold execute
  cases f.flow.input.check input with
  | error violation => exact finish_over henv _ _ _ _ _
  | ok u => exact runSteps_over henv hinvoke control f.flow input .pending 0 .empty _ s

/-- An unknown flow is refused in the same way too. -/
theorem runWith_over (registry : Registry) (flow : String) (input : Record) (control : Control)
    (s : τ) :
    runWith env registry invoke flow input control (forget s)
      = forgetting forget (runWith rich registry richly flow input control s) := by
  unfold runWith
  cases registry.flows.get? flow with
  | some f => exact execute_over henv hinvoke control f input s
  | none => exact finish_over henv _ _ _ _ _

omit hinvoke in
theorem evaluate_over (registry : Registry) (table : String) (input : Record) (s : τ) :
    evaluate env registry table input (forget s)
      = forgetting forget (evaluate rich registry table input s) := by
  simp only [evaluate, henv.record]

/-! ## The engine -/

omit henv hinvoke in
/-- Induction along the levels of the engine: tables answer on every level, flows on no level at all
    or with their targets one level below. -/
@[elab_as_elim]
theorem levels_induction {P : Nat → Target → Prop}
    (table : ∀ levels id, P levels (.table id)) (spent : ∀ id, P 0 (.flow id))
    (flow : ∀ levels id, (∀ target, P levels target) → P (levels + 1) (.flow id)) (levels : Nat)
    (target : Target) : P levels target := by
  induction levels generalizing target with
  | zero =>
      cases target with
      | table id => exact table 0 id
      | flow id => exact spent id
  | succ levels ih =>
      cases target with
      | table id => exact table (levels + 1) id
      | flow id => exact flow levels id ih

omit hinvoke in
/-- **Every level** of the engine answers the same.  A flow is a run whose invoker is that of the
    level below, and this one answers the same by induction. -/
theorem invoker_over (registry : Registry) (levels : Nat) :
    (invoker rich registry levels).Over (invoker env registry levels) forget := by
  intro target input control s
  induction levels, target using levels_induction generalizing input control s with
  | table levels table =>
      rw [invoker, invoker, evaluate_over henv registry table input s]
      cases evaluate rich registry table input s with
      | mk result s' => cases result <;> rfl
  | spent flow => rfl
  | flow levels flow ih =>
      rw [invoker, invoker, runWith_over henv ih registry flow input control s]
      cases runWith rich registry (invoker rich registry levels) flow input control s with
      | mk report s' =>
          obtain ⟨status, context, outcome⟩ := report
          cases outcome <;> rfl

omit hinvoke in
theorem run_over (registry : Registry) (flow : String) (input : Record) (control : Control)
    (s : τ) :
    run env registry flow input control (forget s)
      = forgetting forget (run rich registry flow input control s) :=
  runWith_over henv (invoker_over henv registry _) registry flow input control s

end

end Verdict.Run
