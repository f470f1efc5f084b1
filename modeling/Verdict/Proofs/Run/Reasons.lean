/-
  Reasons — a run that was stopped from outside says why, and when that is true.

  1. **Surroundings** — `Forward`: the clock never goes back, and a raised flag stays raised,
     also while targets are called.

  2. **Specification** — `Justified`: a run is cancelled only if its own flag is raised, and exceeds
     its deadline only if its own deadline has passed.  With ONE exception: a nested run that has
     run out of its step's budget calls that a deadline too.  If the flag rises before the outer run
     looks at its own control, then the outer run hands the nested reason on as its own.  This needs
     a budget and a raised flag (`run_mistakes_budget` shows it); the parameter `budgeted` says
     where a budget is at hand.

  3. **Theorem** — `run_reports_reason`: with targets that are honest about the control they are
     handed a run is honest about its own, and so are the runs of the engine, on every level.
     Without a budget or without a raised flag no run exceeds a deadline that it does not have.
-/
import Verdict.Proofs.Run.Typing
import Verdict.Run.Engine

namespace Verdict.Run

variable {σ : Type}

/-! ## The specification -/

/-- What the clock shows. -/
def Surroundings.now (env : Surroundings σ) (s : σ) : Instant := (env.clock s).1

/-- A later state: the clock has not gone back, and the flag was not lowered. -/
structure Later (env : Surroundings σ) (flag : Flag) (s s' : σ) : Prop where
  raised : env.cancelled s flag = true → env.cancelled s' flag = true
  now : env.now s ≤ env.now s'

/-- The surroundings go on from each state to a later one. -/
structure Surroundings.Forward (env : Surroundings σ) (flag : Flag) : Prop where
  clock : ∀ s, Later env flag s (env.clock s).2
  record : ∀ event s, Later env flag s (env.record event s)

/-- The reason for which a run had to stop, in the state in which it has stopped. -/
def Justified (env : Surroundings σ) (control : Control) (budgeted : Prop) (s : σ) :
    Interruption → Prop
  | .cancelled => env.cancelled s control.flag = true
  | .deadlineExceeded => control.isOverdue (env.now s) = true
      ∨ budgeted ∧ env.cancelled s control.flag = true

/-- An invoker whose targets take their time, and stop only for a reason. -/
structure Invoker.Honest (invoke : Invoker σ) (env : Surroundings σ) (flag : Flag)
    (budgeted : Prop) : Prop where
  later : invoke.Respects (Later env flag)
  justified : ∀ {target input control s cause s' why}, control.flag = flag →
    invoke target input control s = (.error cause, s') → cause.interruption? = some why →
    Justified env control budgeted s' why

/-- A run that ends in an interruption has stopped for that reason before it recorded its end. -/
def ReportsReason (env : Surroundings σ) (control : Control) (budgeted : Prop)
    (result : Report × σ) : Prop :=
  ∀ e why, result.1.outcome = .error e → e.interruption? = some why →
    ∃ s event, result.2 = env.record event s ∧ Justified env control budgeted s why

/-- Some registered flow has a step with a budget. -/
def Budgeted (registry : Registry) : Prop :=
  ∃ flow f step, registry.flows.get? flow = some f ∧ step ∈ f.flow.steps
    ∧ step.budget.isSome = true

/-! ## Later states -/

theorem Surroundings.Forward.respects {env : Surroundings σ} {flag : Flag}
    (h : env.Forward flag) : env.Respects (Later env flag) where
  refl _ := ⟨id, Nat.le_refl _⟩
  trans h h' := ⟨fun hraised => h'.raised (h.raised hraised), Nat.le_trans h.now h'.now⟩
  clock := h.clock
  record := h.record

section

variable {env : Surroundings σ} {control : Control} {budgeted : Prop}

/-- A reason without an exception is one with an exception. -/
theorem Justified.allowing {s : σ} {why : Interruption} (h : Justified env control False s why) :
    Justified env control budgeted s why := by
  cases why with
  | cancelled => exact h
  | deadlineExceeded =>
      rcases h with hoverdue | ⟨hfalse, _⟩
      · exact Or.inl hoverdue
      · exact hfalse.elim

/-- A reason stays one: the flag is not lowered, and a deadline that has passed has passed. -/
theorem Justified.later {s s' : σ} {why : Interruption}
    (h : Justified env control budgeted s why) (hlater : Later env control.flag s s') :
    Justified env control budgeted s' why := by
  cases why with
  | cancelled => exact hlater.raised h
  | deadlineExceeded =>
      rcases h with hoverdue | ⟨hbudget, hraised⟩
      · exact Or.inl (Control.isOverdue_of_le hoverdue hlater.now)
      · exact Or.inr ⟨hbudget, hlater.raised hraised⟩

/-- **A nested reason** that is handed on by a run which has to stop for a reason of its own.

    A nested cancellation is the run's own, since both have one flag.  A nested deadline may be that
    of the budget; if the run has then to stop because its flag is raised, the reason that is handed
    on is not the run's own, and this is the exception. -/
theorem Justified.orNested {now : Instant} {budget : Duration} {s s' : σ}
    {own nested : Interruption} (h : Justified env control False s' own)
    (hnested : Justified env (control.within now budget) budgeted s nested)
    (hlater : Later env control.flag s s') (hbudget : budgeted) :
    Justified env control budgeted s' nested := by
  cases nested with
  | cancelled =>
      have hraised : env.cancelled s control.flag = true := by
        rw [← Control.flag_within control now budget]
        exact hnested
      exact hlater.raised hraised
  | deadlineExceeded =>
      -- It does not matter what the nested run has found: its deadline may be the budget's.
      cases own with
      | cancelled => exact Or.inr ⟨hbudget, h⟩
      | deadlineExceeded => exact h.allowing

variable (forward : env.Forward control.flag)
include forward

/-- What a look at the control finds is true, without any exception. -/
theorem interruption?_justified {s s' : σ} {why : Interruption}
    (h : interruption? env control s = (some why, s')) :
    Justified env control False s' why := by
  unfold interruption? at h
  split at h
  · rename_i hraised
    cases h
    exact hraised
  · split at h
    · cases h
    · obtain ⟨hwhy, rfl⟩ := Prod.mk.inj h
      split at hwhy
      · rename_i hoverdue
        cases hwhy
        exact Or.inl (Control.isOverdue_of_le hoverdue (forward.clock s).now)
      · cases hwhy

/-! ## One step -/

variable {invoke : Invoker σ} (honest : invoke.Honest env control.flag budgeted)
include honest

/-- **One call.**  The reason that it hands on is the run's own, unless a budget is at hand.

    Without a budget the target has been handed the control of the run itself.  With a budget an
    interruption comes out of the call only if the control of the run has to stop as well. -/
theorem call_justified {step : Step} {input : Record} {s s' : σ} {why : Interruption}
    (hbudget : step.budget.isSome = true → budgeted)
    (h : call env invoke control step input s = (.interrupted why, s')) :
    Justified env control budgeted s' why := by
  have hcalled := called env invoke control step input s
  rw [h] at hcalled
  cases hcalled with
  | interrupted _ answered stopped =>
      -- The nested reason, under the same control.
      exact honest.justified rfl answered stopped
  | along budgeted answered stopped look =>
      -- The run has to stop as well, but for a reason that may be another one.
      have hlater := interruption?_respects forward.respects look
      have hnested := honest.justified (Control.flag_within ..) answered stopped
      have hown := interruption?_justified forward look
      refine hown.orNested hnested hlater (hbudget ?_)
      rw [budgeted]
      rfl

/-- **One step** that is stopped was stopped in its call: neither its bindings nor the check of its
    result nor its gate interrupt a run. -/
theorem runStep_justified {flow : String} {input : Record} {index : Nat} {step : Step}
    {expected : ValueType} {context : Context} {s s' : σ} {why : Interruption}
    (hbudget : step.budget.isSome = true → budgeted)
    (h : runStep env invoke control flow input index step expected context s
      = (.interrupted why, s')) : Justified env control budgeted s' why := by
  unfold runStep at h
  cases hbound : bindInputs step index input context with
  | error e =>
      rw [hbound] at h
      cases h
  | ok bound =>
      rw [hbound] at h
      dsimp only at h
      cases hcall : call env invoke control step bound s with
      | mk ending s₁ =>
          rw [hcall] at h
          cases ending with
          | interrupted why' =>
              cases h
              exact call_justified forward honest hbudget hcall
          | timedOut budget => cases h
          | failed cause => cases h
          | value v =>
              -- The result is stored or refused, and a gate passes or fails: neither interrupts.
              dsimp only at h
              split at h
              · unfold askGate at h
                split at h
                · cases h
                · dsimp only at h
                  split at h <;> cases h
              · cases h

end

/-! ## Failures of a run's own -/

/-- A source that is not there is no interruption. -/
theorem gather_error {input : Record} {context : Context} {reader : String → String}
    {index : Nat} {sources : List (String × Source)} {e : RunError}
    (h : gather input context reader index sources = .error e) : e.interruption? = none := by
  unfold gather at h
  generalize Record.nil = record at h
  induction sources generalizing record with
  | nil => cases h
  | cons first sources ih =>
      obtain ⟨name, source⟩ := first
      rw [List.foldlM_cons] at h
      dsimp only at h
      cases hv : resolve? input context source with
      | some v =>
          rw [hv] at h
          exact ih _ h
      | none =>
          -- The first source that is not there is the error.
          rw [hv] at h
          cases h
          rfl

theorem projectOutputs_error {flow : Flow} {input : Record} {context : Context} {e : RunError}
    (h : projectOutputs flow input context = .error e) : e.interruption? = none := by
  unfold projectOutputs at h
  cases hgather : gather input context ("output." ++ ·) flow.steps.length
      (flow.outputs.map fun o => (o.name, o.source)) with
  | ok output =>
      rw [hgather] at h
      cases h
  | error e' =>
      rw [hgather] at h
      cases h
      exact gather_error hgather

/-- A failed step is no interruption. -/
theorem runStep_error {env : Surroundings σ} {invoke : Invoker σ} {control : Control}
    {flow : String} {input : Record} {index : Nat} {step : Step} {expected : ValueType}
    {context context' : Context} {s s' : σ} {e : RunError}
    (h : runStep env invoke control flow input index step expected context s
      = (.failed context' e, s')) : e.interruption? = none := by
  cases hbound : bindInputs step index input context with
  | error e' =>
      rw [runStep, hbound] at h
      cases h
      exact gather_error hbound
  | ok bound =>
      have hends := runStep_ends hbound env invoke control flow expected s
      rw [h] at hends
      cases hends <;> rfl

/-! ## The whole run -/

section

variable {env : Surroundings σ} {control : Control} {budgeted : Prop}

theorem interrupt_reportsReason {why : Interruption} {s : σ} (flow : String) (context : Context)
    (h : Justified env control budgeted s why) :
    ReportsReason env control budgeted (interrupt env flow context why s) := by
  intro e why' herror hwhy
  cases herror
  have heq : why' = why := by
    cases why <;> exact (Option.some.inj hwhy).symm
  subst heq
  exact ⟨s, _, rfl, h⟩

variable (forward : env.Forward control.flag)
include forward

/-- **A run whose targets are honest** reports its reason.  Of its ends only the two that stop it
    are interruptions; the first has its reason from the run's own look at the control, the second
    from a call. -/
theorem Ends.reportsReason {invoke : Invoker σ} (honest : invoke.Honest env control.flag budgeted)
    {f : AdmittedFlow} (hbudget : ∀ step ∈ f.flow.steps, step.budget.isSome = true → budgeted)
    {input : Record} {start : σ} {result : Report × σ}
    (h : Ends env invoke control f input start result) :
    ReportsReason env control budgeted result := by
  cases h with
  | refused violated =>
      intro e why herror hwhy
      cases herror
      cases hwhy
  | stoppedBetween moment stopped =>
      exact interrupt_reportsReason _ _ (interruption?_justified forward stopped).allowing
  | stoppedInside moment quiet due stopped =>
      -- The step that was due is one of the flow's, so its budget counts.
      have hstep := List.mem_of_getElem? (List.getElem?_zip_eq_some.mp due).1
      have hjustified := runStep_justified forward honest (hbudget _ hstep) stopped
      exact interrupt_reportsReason _ _ hjustified
  | failed moment quiet due failed =>
      intro e why herror hwhy
      cases herror
      cases (runStep_error failed).symm.trans hwhy
  | projected moment quiet output_eq =>
      intro e why herror
      cases herror
  | unprojected moment quiet output_eq =>
      intro e why herror hwhy
      cases herror
      cases (projectOutputs_error output_eq).symm.trans hwhy

/-! ## All levels -/

variable (registry : Registry)

theorem runWith_reportsReason {invoke : Invoker σ}
    (honest : invoke.Honest env control.flag (Budgeted registry)) (flow : String) (input : Record)
    (s : σ) :
    ReportsReason env control (Budgeted registry)
      (runWith env registry invoke flow input control s) := by
  unfold runWith
  cases hf : registry.flows.get? flow with
  | none =>
      intro e why herror hwhy
      cases herror
      cases hwhy
  | some f =>
      refine (execute_ends env invoke control f input s).reportsReason forward honest ?_
      exact fun step hstep hbudget => ⟨flow, f, step, hf, hstep, hbudget⟩

end

section

variable {env : Surroundings σ} {flag : Flag} (forward : env.Forward flag) (registry : Registry)
include forward

theorem runWith_later {invoke : Invoker σ} (hinvoke : invoke.Respects (Later env flag))
    (flow : String) (input : Record) (control : Control) (s : σ) :
    Later env flag s (runWith env registry invoke flow input control s).2 := by
  unfold runWith
  cases registry.flows.get? flow with
  | none => exact forward.record _ s
  | some f => exact (execute_ends env invoke control f input s).respects forward.respects hinvoke

/-- Every level of the engine goes on to later states: a table records one event, and a flow is a
    run whose targets are one level below. -/
theorem invoker_later (levels : Nat) :
    (invoker env registry levels).Respects (Later env flag) := by
  intro target input control s
  induction levels, target using levels_induction generalizing input control s with
  | table levels table =>
      have hevaluate : Later env flag s (evaluate env registry table input s).2 :=
        forward.record _ s
      rw [invoker]
      generalize evaluate env registry table input s = result at hevaluate
      obtain ⟨result, s'⟩ := result
      cases result <;> exact hevaluate
  | spent flow => exact forward.respects.refl s
  | flow levels flow ih =>
      have hrun := runWith_later forward registry ih flow input control s
      rw [invoker]
      generalize runWith env registry (invoker env registry levels) flow input control s
        = result at hrun
      obtain ⟨⟨status, context, outcome⟩, s'⟩ := result
      cases outcome <;> exact hrun

/-- **Honest levels**: what the engine calls stops only for a reason.  Tables and unknown flows are
    never interrupted; a nested run reports its reason before it records its end, and the reason
    still holds after that. -/
theorem invoker_honest (levels : Nat) :
    (invoker env registry levels).Honest env flag (Budgeted registry) := by
  refine ⟨invoker_later forward registry levels, ?_⟩
  intro target input control s cause s' why hflag h hwhy
  induction levels, target using levels_induction generalizing input control s cause s' why with
  | table levels table =>
      rw [invoker] at h
      generalize evaluate env registry table input s = result at h
      obtain ⟨result, s₁⟩ := result
      cases result <;> cases h
      cases hwhy
  | spent flow =>
      cases h
      cases hwhy
  | flow levels flow ih =>
      subst hflag
      have honest : (invoker env registry levels).Honest env control.flag (Budgeted registry) :=
        ⟨invoker_later forward registry levels, ih _⟩
      have hreports := runWith_reportsReason forward registry honest flow input s
      rw [invoker] at h
      generalize runWith env registry (invoker env registry levels) flow input control s
        = result at h hreports
      obtain ⟨⟨status, context, outcome⟩, s₁⟩ := result
      cases outcome with
      | ok output => cases h
      | error e =>
          cases h
          obtain ⟨s₀, event, rfl, hjustified⟩ := hreports e why rfl hwhy
          exact hjustified.later (forward.record event s₀)

end

/-- **Reasons.**  A run whose targets are honest about the control they are handed is honest about
    its own, and so is every run of the engine: it is cancelled only if its flag is raised, and it
    exceeds its deadline only if this has passed, or if a step's budget has run out and the flag is
    raised.

    The first half is about one run and any invoker, the second about the engine with all its
    levels.  Where no step has a budget, `budgeted` may be false and the exception is gone. -/
theorem run_reports_reason (env : Surroundings σ) (control : Control)
    (forward : env.Forward control.flag) (registry : Registry) (input : Record) (s : σ) :
    (∀ (f : AdmittedFlow) (invoke : Invoker σ) (budgeted : Prop),
        (∀ step ∈ f.flow.steps, step.budget.isSome = true → budgeted) →
        invoke.Honest env control.flag budgeted →
        ReportsReason env control budgeted (execute env invoke control f input s))
      ∧ ∀ flow, ReportsReason env control (Budgeted registry)
          (run env registry flow input control s) := by
  constructor
  · intro f invoke budgeted hbudget honest
    exact (execute_ends env invoke control f input s).reportsReason forward honest hbudget
  · intro flow
    exact runWith_reportsReason forward registry (invoker_honest forward registry _) flow input s

/-! ## A budget that is taken for a deadline -/

/-- Surroundings in which the step of the gate takes a second, and in which the run is cancelled
    when the gate has ended; the state is the time and the flag. -/
def Surroundings.slowGate : Surroundings (Instant × Bool) where
  clock s := (s.1, s)
  cancelled s _ := s.2
  record event s :=
    match event with
    | .stepCompleted flow _ _ => if flow = "gate" then (s.1 + Duration.second, s.2) else s
    | .runFinished flow _ _ => if flow = "gate" then (s.1, true) else s
    | _ => s

/-- Passes the gate, which has to answer within some milliseconds. -/
def hurriedFlow : Flow where
  id := "hurried"
  input := .cons "years" .int .nil
  steps :=
    [ { name := "gate"
        target := .flow "gate"
        inputs := [⟨"years", .input "years"⟩]
        gate := none
        gateMessage := none
        budget := some 20 } ]
  outputs := [⟨"years", .float, .input "years"⟩]

/-- The registry in which the gate is passed in a hurry. -/
def hurriedRegistry : Registry :=
  .ofDefinitions .default (Registry.visitDefinitions ++ [.flow hurriedFlow])

theorem slowGate_forward (flag : Flag) : Surroundings.slowGate.Forward flag := by
  have hsame : ∀ s, Later .slowGate flag s s := fun s => ⟨id, Nat.le_refl _⟩
  refine ⟨hsame, fun event s => ?_⟩
  cases event with
  | stepCompleted flow step index =>
      show Later .slowGate flag s (if flow = "gate" then (s.1 + Duration.second, s.2) else s)
      split
      · have hlater : s.1 ≤ s.1 + Duration.second := Nat.le_add_right s.1 Duration.second
        exact ⟨id, hlater⟩
      · exact hsame s
  | runFinished flow status completed =>
      show Later .slowGate flag s (if flow = "gate" then (s.1, true) else s)
      split
      · exact ⟨fun _ => rfl, Nat.le_refl _⟩
      · exact hsame s
  | tableEvaluated table rule outcome => exact hsame s
  | gateEvaluated flow step index condition passed => exact hsame s

theorem hurried_outcome :
    (run .slowGate hurriedRegistry "hurried" ofAge (.new ⟨0⟩) (0, false)).1.outcome
      = .error (.deadlineExceeded 0 none) := rfl

/-- The nested run has run out of the budget, and then the flag was raised: the run reports a
    deadline that it does not have. -/
theorem run_mistakes_budget :
    Surroundings.slowGate.Forward (Control.new ⟨0⟩).flag
      ∧ (run .slowGate hurriedRegistry "hurried" ofAge (.new ⟨0⟩) (0, false)).1.outcome
          = .error (.deadlineExceeded 0 none)
      ∧ ¬ ReportsReason .slowGate (.new ⟨0⟩) False
          (run .slowGate hurriedRegistry "hurried" ofAge (.new ⟨0⟩) (0, false)) := by
  refine ⟨slowGate_forward _, hurried_outcome, fun hreports => ?_⟩
  obtain ⟨s, event, _, hoverdue | ⟨hfalse, _⟩⟩ :=
    hreports _ .deadlineExceeded hurried_outcome rfl
  · cases hoverdue
  · exact hfalse

/-- An invoker during whose calls the run is cancelled, and which says so. -/
def Invoker.cancelling : Invoker (Instant × Bool) :=
  fun _ _ _ s => (.error (.run (.cancelled 0 none)), (s.1, true))

theorem cancelling_honest (flag : Flag) : Invoker.cancelling.Honest .slowGate flag False := by
  refine ⟨fun _ _ _ _ => ⟨fun _ => rfl, Nat.le_refl _⟩, ?_⟩
  intro target input control s cause s' why hflag h hwhy
  cases h
  cases hwhy
  exact rfl

/-- In the same run the exception applies: by the time of its report the flag is raised.  A run
    that is cancelled during a call needs no exception. -/
theorem run_reports_reason_hurried :
    Surroundings.slowGate.Forward (Control.new ⟨0⟩).flag
      ∧ (∃ s event, (run .slowGate hurriedRegistry "hurried" ofAge (.new ⟨0⟩) (0, false)).2
            = Surroundings.slowGate.record event s
          ∧ Surroundings.slowGate.cancelled s ⟨0⟩ = true)
      ∧ Invoker.cancelling.Honest .slowGate (Control.new ⟨0⟩).flag False
      ∧ ∃ s event, (execute .slowGate .cancelling (.new ⟨0⟩) Registry.admittedVisit ofAge
              (0, false)).2 = Surroundings.slowGate.record event s
          ∧ Surroundings.slowGate.cancelled s ⟨0⟩ = true := by
  obtain ⟨hexecute, hrun⟩ := run_reports_reason .slowGate (.new ⟨0⟩) (slowGate_forward _)
    hurriedRegistry ofAge (0, false)
  have honest := cancelling_honest (Control.new ⟨0⟩).flag
  have hbudget : ∀ step ∈ Registry.admittedVisit.flow.steps, step.budget.isSome = true → False := by
    intro step hstep hsome
    cases List.mem_singleton.mp hstep
    cases hsome
  refine ⟨slowGate_forward _, ?_, honest, ?_⟩
  · obtain ⟨s, event, heq, hoverdue | ⟨_, hraised⟩⟩ :=
      hrun "hurried" _ .deadlineExceeded hurried_outcome rfl
    · cases hoverdue
    · exact ⟨s, event, heq, hraised⟩
  · exact hexecute Registry.admittedVisit .cancelling False hbudget honest (.cancelled 0 none)
      .cancelled rfl rfl

end Verdict.Run
