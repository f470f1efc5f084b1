/-
  Calls of a run — which targets it calls, with which records, in which order.

  1. **Data** — surroundings and an invoker that keep a LIST of the calls beside their state.  The
     list is written by the invoker alone and read by nobody.

  2. **Transparency** — keeping the list changes nothing: at every stage the run does what it does
     without the list (`runStep_logged`), and so does the run as a whole (`execute_logged`).  A step
     adds ONE entry, that of its target with what its bindings have read.

  Core only.
-/
import Verdict.Proofs.Run.Moments
import Verdict.Proofs.Run.Projection

namespace Verdict.Run

variable {σ : Type}

/-- A call of a target with a record. -/
abbrev Call := Target × Record

/-- The surroundings beside a list of calls, which they leave alone. -/
def Surroundings.logged (env : Surroundings σ) : Surroundings (σ × List Call) where
  clock s := ((env.clock s.1).1, (env.clock s.1).2, s.2)
  cancelled s flag := env.cancelled s.1 flag
  record event s := (env.record event s.1, s.2)

/-- The invoker that also writes down what it is called with. -/
def Invoker.logged (invoke : Invoker σ) : Invoker (σ × List Call) :=
  fun target input control s =>
    ((invoke target input control s.1).1, (invoke target input control s.1).2,
      s.2 ++ [(target, input)])

/-! ## Stage by stage -/

theorem interruption?_logged (env : Surroundings σ) (control : Control) (s : σ)
    (calls : List Call) :
    interruption? env.logged control (s, calls)
      = ((interruption? env control s).1, (interruption? env control s).2, calls) := by
  unfold interruption?
  show (if env.cancelled s control.flag then _ else _) = _
  split
  · rfl
  · split <;> rfl

/-- **One call** adds one entry, with a budget and without one: the clock and the control are looked
    at before and after it, but they write nothing down. -/
theorem call_logged (env : Surroundings σ) (invoke : Invoker σ) (control : Control) (step : Step)
    (input : Record) (s : σ) (calls : List Call) :
    call env.logged invoke.logged control step input (s, calls)
      = ((call env invoke control step input s).1, (call env invoke control step input s).2,
          calls ++ [(step.target, input)]) := by
  unfold call
  cases step.budget with
  | none =>
      simp only [Invoker.logged]
      cases invoke step.target input control s with
      | mk result s' =>
          cases result with
          | ok v => rfl
          | error cause =>
              dsimp only
              cases cause.interruption? <;> rfl
  | some budget =>
      simp only [Invoker.logged, Surroundings.logged]
      cases invoke step.target input _ _ with
      | mk result s' =>
          cases result with
          | ok v => rfl
          | error cause =>
              dsimp only
              cases cause.interruption? with
              | none => rfl
              | some why =>
                  -- Stopped inside: the step asks whether it was its own control.
                  have hlogged := interruption?_logged env control s'
                    (calls ++ [(step.target, input)])
                  simp only [Surroundings.logged] at hlogged
                  simp only [hlogged]

theorem askGate_logged (env : Surroundings σ) (flow : String) (step : Step) (index : Nat)
    (context : Context) (s : σ) (calls : List Call) :
    askGate env.logged flow step index context (s, calls)
      = ((askGate env flow step index context s).1, (askGate env flow step index context s).2,
          calls) := by
  unfold askGate
  cases step.gate with
  | none => rfl
  | some gate =>
      dsimp only
      split <;> rfl

/-- A step whose bindings are read adds its call, and does otherwise what it does without the
    list. -/
theorem runStep_logged {step : Step} {index : Nat} {input bound : Record} {context : Context}
    (hbound : bindInputs step index input context = .ok bound) (env : Surroundings σ)
    (invoke : Invoker σ) (control : Control) (flow : String) (expected : ValueType) (s : σ)
    (calls : List Call) :
    runStep env.logged invoke.logged control flow input index step expected context (s, calls)
      = ((runStep env invoke control flow input index step expected context s).1,
          (runStep env invoke control flow input index step expected context s).2,
          calls ++ [(step.target, bound)]) := by
  unfold runStep
  rw [hbound]
  dsimp only
  rw [call_logged]
  cases call env invoke control step bound s with
  | mk ending s' =>
      cases ending with
      | interrupted why => rfl
      | timedOut budget => rfl
      | failed cause => rfl
      | value v =>
          -- What follows the call is recorded as an event, not as a call.
          dsimp only
          split
          · exact askGate_logged env flow step index _ _ _
          · rfl

/-- Looking at the control writes nothing down. -/
theorem calls_of_interruption? {env : Surroundings σ} {control : Control} {s s₁ : σ × List Call}
    {why : Option Interruption} (h : interruption? env.logged control s = (why, s₁)) :
    s₁.2 = s.2 := by
  have hlogged := interruption?_logged env control s.1 s.2
  rw [h] at hlogged
  exact congrArg (fun p => p.2.2) hlogged

/-- A step whose bindings are read writes down one call. -/
theorem runStep_calls {step : Step} {index : Nat} {input bound : Record} {context : Context}
    (hbound : bindInputs step index input context = .ok bound) (env : Surroundings σ)
    (invoke : Invoker σ) (control : Control) (flow : String) (expected : ValueType)
    (s : σ × List Call) :
    (runStep env.logged invoke.logged control flow input index step expected context s).2.2
      = s.2 ++ [(step.target, bound)] := by
  have hlogged := runStep_logged hbound env invoke control flow expected s.1 s.2
  rw [hlogged]

/-! ## The whole run -/

/-- The list is kept beside the state. -/
theorem Surroundings.logged_over (env : Surroundings σ) : env.logged.Over env Prod.fst where
  clock _ := rfl
  cancelled _ _ := rfl
  record _ _ := rfl

theorem Invoker.logged_over (invoke : Invoker σ) : invoke.logged.Over invoke Prod.fst :=
  fun _ _ _ _ => rfl

/-- **Keeping the list changes nothing**, neither the report of a run nor what it leaves of the
    surroundings. -/
theorem execute_logged (env : Surroundings σ) (invoke : Invoker σ) (control : Control)
    (f : AdmittedFlow) (input : Record) (s : σ) :
    ∃ calls, execute env.logged invoke.logged control f input (s, [])
      = ((execute env invoke control f input s).1, (execute env invoke control f input s).2,
          calls) := by
  have hover : execute env invoke control f input s
      = forgetting Prod.fst (execute env.logged invoke.logged control f input (s, [])) :=
    execute_over env.logged_over invoke.logged_over control f input (s, [])
  exact ⟨_, by rw [hover]⟩

end Verdict.Run
