/-
  Moments of a run — everything that a run can do, said once.

  1. **One step** — `Called` takes the call of a target apart, with the states in between.
     `CallEnds` lists what a call can come to, `StepEnds` what a step can come to once its bindings
     are read.  Neither of the two says anything about the surroundings: the lists hold whatever
     the clock shows, whatever is cancelled, and whatever the invoker answers.

  2. **Moments** — `Moment index context s`: the run stands between two steps, `index` steps are
     completed with the results in `context`, and the surroundings are in state `s`.  A run goes
     from moment to moment by completing steps, and in NO other way.

  3. **Time** — `Passes`: nothing happens but readings of the clock.  A call of a target is one call
     of the invoker under the run's own flag, with nothing but time passing before and after it
     (`call_answers`).

  4. **Ends** — `Ends` lists the ways in which a run leaves its last moment; `execute_ends`: every
     run ends in one of them.  What holds at the start and is kept from moment to moment holds at
     the end of every run, and that is how the theorems on runs are proved.  A relation of states
     that the surroundings and all calls keep, a run keeps (`Ends.respects`).

  Core only.
-/
import Verdict.Proofs.Run.Deadlines
import Verdict.Run.Execution

namespace Verdict.Run

variable {σ : Type}

/-! ## One step -/

theorem Context.length_push (context : Context) (name : String) (v : Value) :
    (context.push name v).length = context.length + 1 := List.length_append

theorem Context.last?_push (context : Context) (name : String) (v : Value) :
    (context.push name v).last? = some name := by
  rw [Context.last?, Context.push, List.getLast?_concat, Option.map_some]

/-- From one state to another nothing happens but readings of the clock. -/
inductive Passes (env : Surroundings σ) (s : σ) : σ → Prop
  | nothing : Passes env s s
  | reading {s' : σ} (before : Passes env s s') : Passes env s (env.clock s').2

theorem interruption?_passes (env : Surroundings σ) (control : Control) (s : σ) :
    Passes env s (interruption? env control s).2 := by
  unfold interruption?
  split
  · exact .nothing
  · split
    · exact .nothing
    · exact .reading .nothing

/-- Looking at the control takes time at most. -/
theorem Passes.of_interruption? {env : Surroundings σ} {control : Control} {s s' : σ}
    {why : Option Interruption} (h : interruption? env control s = (why, s')) :
    Passes env s s' := by
  have hpasses := interruption?_passes env control s
  rw [h] at hpasses
  exact hpasses

/-- What no reading of the clock changes is as it was. -/
theorem Passes.view_eq {env : Surroundings σ} {s s' : σ} (h : Passes env s s') {α : Type}
    (view : σ → α) (hclock : ∀ s, view (env.clock s).2 = view s) : view s' = view s := by
  induction h with
  | nothing => rfl
  | reading _ ih => exact (hclock _).trans ih

/-- What the target of a step is handed, and the state in which it is called. -/
inductive Handed (env : Surroundings σ) (control : Control) (step : Step) (s : σ) :
    Control → σ → Prop
  /-- Without a budget it is the control of the run itself. -/
  | own (unbudgeted : step.budget = none) : Handed env control step s control s
  /-- With a budget it is a narrower one.  The clock is read to narrow it, and then once more, to
      measure the call. -/
  | narrowed {budget : UInt64} (budgeted : step.budget = some budget) :
      Handed env control step s
        (control.within (env.clock s).1 (Duration.milliseconds budget.toNat))
        (env.clock (env.clock s).2).2

namespace Handed

variable {env : Surroundings σ} {control handed : Control} {step : Step} {s s₀ : σ}

theorem flag_eq (h : Handed env control step s handed s₀) : handed.flag = control.flag := by
  cases h with
  | own => rfl
  | narrowed => exact Control.flag_within ..

theorem passes (h : Handed env control step s handed s₀) : Passes env s s₀ := by
  cases h with
  | own => exact .nothing
  | narrowed => exact .reading (.reading .nothing)

end Handed

/-- **One call, taken apart**: one constructor for every way through it.  The answer of the target
    is passed on, unless there is a budget: then the clock is read once more after a value, and
    the control is looked at after an interruption. -/
inductive Called (env : Surroundings σ) (invoke : Invoker σ) (control : Control) (step : Step)
    (input : Record) (s : σ) : CallEnd × σ → Prop
  | value {handed : Control} {s₀ s₁ s' : σ} {v : Value}
      (given : Handed env control step s handed s₀)
      (answered : invoke step.target input handed s₀ = (.ok v, s₁)) (after : Passes env s₁ s') :
      Called env invoke control step input s (.value v, s')
  /-- A value that comes after the end of the budget is dropped. -/
  | late {handed : Control} {s₀ s₁ : σ} {v : Value} {budget : UInt64}
      (given : Handed env control step s handed s₀) (budgeted : step.budget = some budget)
      (answered : invoke step.target input handed s₀ = (.ok v, s₁)) :
      Called env invoke control step input s (.timedOut budget, (env.clock s₁).2)
  | failed {handed : Control} {s₀ s' : σ} {cause : StepFailure}
      (given : Handed env control step s handed s₀)
      (answered : invoke step.target input handed s₀ = (.error cause, s'))
      (unstopped : cause.interruption? = none) :
      Called env invoke control step input s (.failed cause, s')
  /-- Without a budget an interruption is passed on as any other answer. -/
  | interrupted {s' : σ} {cause : StepFailure} {why : Interruption}
      (unbudgeted : step.budget = none)
      (answered : invoke step.target input control s = (.error cause, s'))
      (stopped : cause.interruption? = some why) :
      Called env invoke control step input s (.interrupted why, s')
  /-- With a budget it is passed on if the run itself has to stop, for whatever reason. -/
  | along {s₁ s' : σ} {cause : StepFailure} {why own : Interruption} {budget : UInt64}
      (budgeted : step.budget = some budget)
      (answered : invoke step.target input
        (control.within (env.clock s).1 (Duration.milliseconds budget.toNat))
        (env.clock (env.clock s).2).2 = (.error cause, s₁))
      (stopped : cause.interruption? = some why)
      (look : interruption? env control s₁ = (some own, s')) :
      Called env invoke control step input s (.interrupted why, s')
  /-- If it need not, the interruption was the budget's. -/
  | alone {handed : Control} {s₀ s₁ s' : σ} {cause : StepFailure} {budget : UInt64}
      (given : Handed env control step s handed s₀) (budgeted : step.budget = some budget)
      (answered : invoke step.target input handed s₀ = (.error cause, s₁))
      (look : interruption? env control s₁ = (none, s')) :
      Called env invoke control step input s (.timedOut budget, s')

/-- Every call goes one of these ways. -/
theorem called (env : Surroundings σ) (invoke : Invoker σ) (control : Control) (step : Step)
    (input : Record) (s : σ) :
    Called env invoke control step input s (call env invoke control step input s) := by
  unfold call
  cases hbudget : step.budget with
  | none =>
      dsimp only
      cases hinvoke : invoke step.target input control s with
      | mk result s' =>
          cases result with
          | ok v => exact .value (.own hbudget) hinvoke .nothing
          | error cause =>
              dsimp only
              cases hstop : cause.interruption? with
              | none => exact .failed (.own hbudget) hinvoke hstop
              | some why => exact .interrupted hbudget hinvoke hstop
  | some budget =>
      dsimp only
      cases hinvoke : invoke step.target input
          (control.within (env.clock s).1 (Duration.milliseconds budget.toNat))
          (env.clock (env.clock s).2).2 with
      | mk result s₁ =>
          cases result with
          | ok v =>
              dsimp only
              split
              · exact .late (.narrowed hbudget) hbudget hinvoke
              · exact .value (.narrowed hbudget) hinvoke (.reading .nothing)
          | error cause =>
              dsimp only
              cases hstop : cause.interruption? with
              | none => exact .failed (.narrowed hbudget) hinvoke hstop
              | some why =>
                  dsimp only
                  cases hlook : interruption? env control s₁ with
                  | mk own s' =>
                      cases own with
                      | none => exact .alone (.narrowed hbudget) hbudget hinvoke hlook
                      | some reason => exact .along hbudget hinvoke hstop hlook

/-- What the call of a target can come to. -/
inductive CallEnds (invoke : Invoker σ) (step : Step) (input : Record) : CallEnd → Prop
  | value {control : Control} {s s' : σ} {v : Value}
      (answered : invoke step.target input control s = (.ok v, s')) :
      CallEnds invoke step input (.value v)
  | timedOut {budget : UInt64} (budgeted : step.budget = some budget) :
      CallEnds invoke step input (.timedOut budget)
  | interrupted {control : Control} {s s' : σ} {cause : StepFailure} {why : Interruption}
      (answered : invoke step.target input control s = (.error cause, s'))
      (stopped : cause.interruption? = some why) :
      CallEnds invoke step input (.interrupted why)
  | failed {control : Control} {s s' : σ} {cause : StepFailure}
      (answered : invoke step.target input control s = (.error cause, s'))
      (unstopped : cause.interruption? = none) :
      CallEnds invoke step input (.failed cause)

/-- **One call** comes to one of these. -/
theorem call_ends (env : Surroundings σ) (invoke : Invoker σ) (control : Control) (step : Step)
    (input : Record) (s : σ) :
    CallEnds invoke step input (call env invoke control step input s).1 := by
  have hcalled := called env invoke control step input s
  generalize call env invoke control step input s = result at hcalled ⊢
  cases hcalled with
  | value _ answered => exact .value answered
  | late _ budgeted => exact .timedOut budgeted
  | failed _ answered unstopped => exact .failed answered unstopped
  | interrupted _ answered stopped => exact .interrupted answered stopped
  | along _ answered stopped => exact .interrupted answered stopped
  | alone _ budgeted => exact .timedOut budgeted

/-- **One call** is all that a step does with the surroundings, besides reading the clock; a value
    that comes out of it is what the target has answered.

    The clock is read before the call only if there is a budget, once to narrow the control and once
    for the step's own deadline.  The target is handed the run's flag in either case. -/
theorem call_answers (env : Surroundings σ) (invoke : Invoker σ) (control : Control) (step : Step)
    (input : Record) (s : σ) :
    ∃ (handed : Control) (s₁ : σ), handed.flag = control.flag ∧ Passes env s s₁
      ∧ Passes env (invoke step.target input handed s₁).2
          (call env invoke control step input s).2
      ∧ ∀ v, (call env invoke control step input s).1 = .value v →
          (invoke step.target input handed s₁).1 = .ok v := by
  have hcalled := called env invoke control step input s
  generalize call env invoke control step input s = result at hcalled ⊢
  cases hcalled with
  | value given answered after =>
      refine ⟨_, _, given.flag_eq, given.passes, ?_⟩
      rw [answered]
      refine ⟨after, fun v hv => ?_⟩
      cases hv
      rfl
  | late given _ answered =>
      refine ⟨_, _, given.flag_eq, given.passes, ?_, nofun⟩
      rw [answered]
      exact .reading .nothing
  | failed given answered =>
      refine ⟨_, _, given.flag_eq, given.passes, ?_, nofun⟩
      rw [answered]
      exact .nothing
  | interrupted unbudgeted answered =>
      refine ⟨control, s, rfl, .nothing, ?_, nofun⟩
      rw [answered]
      exact .nothing
  | along budgeted answered _ look =>
      have given : Handed env control step s _ _ := .narrowed budgeted
      refine ⟨_, _, given.flag_eq, given.passes, ?_, nofun⟩
      rw [answered]
      exact .of_interruption? look
  | alone given _ answered look =>
      refine ⟨_, _, given.flag_eq, given.passes, ?_, nofun⟩
      rw [answered]
      exact .of_interruption? look

theorem call_passes (env : Surroundings σ) (invoke : Invoker σ) (control : Control) (step : Step)
    (input : Record) (s : σ) :
    ∃ (handed : Control) (s₁ : σ), handed.flag = control.flag ∧ Passes env s s₁
      ∧ Passes env (invoke step.target input handed s₁).2
          (call env invoke control step input s).2 := by
  obtain ⟨handed, s₁, hflag, hbefore, hafter, _⟩ := call_answers env invoke control step input s
  exact ⟨handed, s₁, hflag, hbefore, hafter⟩

/-- The gate of a step holds of a context, if there is one. -/
def GatePasses (step : Step) (context : Context) : Prop :=
  ∀ gate, step.gate = some gate → gate.holds (FieldTest.holds context.lookup) = true

/-- The context after a step that began with the given one. -/
def StepEnd.contextAfter (context : Context) : StepEnd → Context
  | .completed context' => context'
  | .failed context' _ => context'
  | .interrupted _ => context

/-- What a step can come to whose target is called with `bound`. -/
inductive StepEnds (invoke : Invoker σ) (index : Nat) (step : Step) (expected : ValueType)
    (context : Context) (bound : Record) : StepEnd → Prop
  | completed {v : Value} (answered : CallEnds invoke step bound (.value v))
      (accepted : expected.accepts v = true)
      (passed : GatePasses step (context.push step.name (expected.coerce v))) :
      StepEnds invoke index step expected context bound
        (.completed (context.push step.name (expected.coerce v)))
  | gateFailed {v : Value} {gate : FieldCondition}
      (answered : CallEnds invoke step bound (.value v)) (accepted : expected.accepts v = true)
      (gated : step.gate = some gate)
      (refused : gate.holds
        (FieldTest.holds (context.push step.name (expected.coerce v)).lookup) = false) :
      StepEnds invoke index step expected context bound
        (.failed (context.push step.name (expected.coerce v))
          (.gateFailed step.name index gate.text step.gateMessage))
  | mismatched {v : Value} (answered : CallEnds invoke step bound (.value v))
      (rejected : expected.accepts v = false) :
      StepEnds invoke index step expected context bound
        (.failed context (.resultMismatch step.name index expected v.kind))
  | timedOut {budget : UInt64} (budgeted : step.budget = some budget) :
      StepEnds invoke index step expected context bound
        (.failed context (.stepTimedOut step.name index budget))
  | stepFailed {cause : StepFailure} (answered : CallEnds invoke step bound (.failed cause)) :
      StepEnds invoke index step expected context bound
        (.failed context (.stepFailed step.name index cause))
  | interrupted {why : Interruption} (answered : CallEnds invoke step bound (.interrupted why)) :
      StepEnds invoke index step expected context bound (.interrupted why)

/-- **One step**, once its bindings are read, comes to one of these, whatever the surroundings do.
    The cases are those of its call; only a value goes on to the check of its type, into the context
    and to the gate. -/
theorem runStep_ends {step : Step} {index : Nat} {input bound : Record} {context : Context}
    (hbound : bindInputs step index input context = .ok bound) (env : Surroundings σ)
    (invoke : Invoker σ) (control : Control) (flow : String) (expected : ValueType) (s : σ) :
    StepEnds invoke index step expected context bound
      (runStep env invoke control flow input index step expected context s).1 := by
  have hcall := call_ends env invoke control step bound s
  rw [runStep, hbound]
  dsimp only
  generalize call env invoke control step bound s = called at hcall
  obtain ⟨ending, s'⟩ := called
  cases ending with
  | interrupted why => exact .interrupted hcall
  | timedOut budget =>
      cases hcall with
      | timedOut budgeted => exact .timedOut budgeted
  | failed cause => exact .stepFailed hcall
  | value v =>
      dsimp only
      split
      · rename_i haccept
        rw [askGate]
        cases hgate : step.gate with
        | none => exact .completed hcall haccept fun gate h => nomatch hgate.symm.trans h
        | some gate =>
            dsimp only
            split
            · -- The gate holds of the context that has the result already.
              rename_i hpass
              refine .completed hcall haccept fun other hother => ?_
              cases hgate.symm.trans hother
              exact hpass
            · rename_i hfail
              exact .gateFailed hcall haccept hgate (Bool.eq_false_iff.mpr hfail)
      · rename_i hreject
        exact .mismatched hcall (Bool.eq_false_iff.mpr hreject)

/-- A step that completes adds its result to the context. -/
theorem runStep_pushes {env : Surroundings σ} {invoke : Invoker σ} {control : Control}
    {flow : String} {input : Record} {index : Nat} {step : Step} {expected : ValueType}
    {context context' : Context} {s s' : σ}
    (h : runStep env invoke control flow input index step expected context s
      = (.completed context', s')) : ∃ v, context' = context.push step.name v := by
  cases hbound : bindInputs step index input context with
  | error e =>
      rw [runStep, hbound] at h
      cases h
  | ok bound =>
      have hends := runStep_ends hbound env invoke control flow expected s
      rw [h] at hends
      cases hends with
      | completed => exact ⟨_, rfl⟩

/-! ## Moments -/

/-- The steps of an admitted flow with their result types. -/
def typedSteps (f : AdmittedFlow) : List (Step × ValueType) :=
  f.flow.steps.zip f.facts.stepOutputs

section

variable (env : Surroundings σ) (invoke : Invoker σ) (control : Control) (f : AdmittedFlow)
  (input : Record) (start : σ)

/-- A run from state `start` stands between two steps. -/
inductive Moment : Nat → Context → σ → Prop
  | start (conforming : f.flow.input.check input = .ok ()) : Moment 0 .empty start
  | next {index : Nat} {context context' : Context} {s s₁ s₂ : σ} {step : Step}
      {expected : ValueType} (before : Moment index context s)
      (quiet : interruption? env control s = (none, s₁))
      (due : (typedSteps f)[index]? = some (step, expected))
      (completed : runStep env invoke control f.flow.id input index step expected context s₁
        = (.completed context', s₂)) :
      Moment (index + 1) context' s₂

/-- The ways in which a run from state `start` ends. -/
inductive Ends : Report × σ → Prop
  | refused {violation : ShapeViolation}
      (violated : f.flow.input.check input = .error violation) :
      Ends (finish env f.flow.id .pending .empty
        (.error (.invalidInput f.flow.id violation)) start)
  | stoppedBetween {index : Nat} {context : Context} {s s₁ : σ} {why : Interruption}
      (moment : Moment env invoke control f input start index context s)
      (stopped : interruption? env control s = (some why, s₁)) :
      Ends (interrupt env f.flow.id context why s₁)
  | stoppedInside {index : Nat} {context : Context} {s s₁ s₂ : σ} {step : Step}
      {expected : ValueType} {why : Interruption}
      (moment : Moment env invoke control f input start index context s)
      (quiet : interruption? env control s = (none, s₁))
      (due : (typedSteps f)[index]? = some (step, expected))
      (stopped : runStep env invoke control f.flow.id input index step expected context s₁
        = (.interrupted why, s₂)) :
      Ends (interrupt env f.flow.id context why s₂)
  | failed {index : Nat} {context context' : Context} {s s₁ s₂ : σ} {step : Step}
      {expected : ValueType} {e : RunError}
      (moment : Moment env invoke control f input start index context s)
      (quiet : interruption? env control s = (none, s₁))
      (due : (typedSteps f)[index]? = some (step, expected))
      (failed : runStep env invoke control f.flow.id input index step expected context s₁
        = (.failed context' e, s₂)) :
      Ends (finish env f.flow.id (.failedAtStep index step.name) context' (.error e) s₂)
  | projected {context : Context} {s s₁ : σ} {output : Record}
      (moment : Moment env invoke control f input start (typedSteps f).length context s)
      (quiet : interruption? env control s = (none, s₁))
      (output_eq : projectOutputs f.flow input context = .ok output) :
      Ends (finish env f.flow.id .succeeded context (.ok output) s₁)
  | unprojected {context : Context} {s s₁ : σ} {status : Status} {e : RunError}
      (moment : Moment env invoke control f input start (typedSteps f).length context s)
      (quiet : interruption? env control s = (none, s₁))
      (output_eq : projectOutputs f.flow input context = .error e) :
      Ends (finish env f.flow.id status context (.error e) s₁)

end

variable {env : Surroundings σ} {invoke : Invoker σ} {control : Control} {f : AdmittedFlow}
  {input : Record} {start : σ}

/-- The context grows by one entry from moment to moment. -/
theorem Moment.length_eq {index : Nat} {context : Context} {s : σ}
    (h : Moment env invoke control f input start index context s) : context.length = index := by
  induction h with
  | start conforming => rfl
  | next before quiet due completed ih =>
      obtain ⟨v, rfl⟩ := runStep_pushes completed
      rw [Context.length_push, ih]

/-- **From every moment**, the loop over the remaining steps ends in one of the ways.

    The induction is on the remaining steps.  What carries it is that they are the rest of the typed
    steps behind the moment's index: so the step at the head is the one that is due, and an empty
    rest means that all steps are completed. -/
theorem runSteps_ends {steps : List (Step × ValueType)} {index : Nat} {context : Context} {s : σ}
    (status : Status) (hmoment : Moment env invoke control f input start index context s)
    (hsteps : typedSteps f = (typedSteps f).take index ++ steps)
    (hindex : index ≤ (typedSteps f).length) :
    Ends env invoke control f input start
      (runSteps env invoke control f.flow input status index context steps s) := by
  induction steps generalizing index context s status with
  | nil =>
      -- All steps are completed: the control is looked at, and then the outputs are read.
      have hall : index = (typedSteps f).length := by
        have hlen := congrArg List.length hsteps
        rw [List.append_nil, List.length_take] at hlen
        omega
      subst hall
      rw [runSteps]
      cases hquiet : interruption? env control s with
      | mk why s₁ =>
          cases why with
          | some why => exact .stoppedBetween hmoment hquiet
          | none =>
              dsimp only
              cases hout : projectOutputs f.flow input context with
              | ok output => exact .projected hmoment hquiet hout
              | error e => exact .unprojected hmoment hquiet hout
  | cons first steps ih =>
      obtain ⟨step, expected⟩ := first
      have hlen : ((typedSteps f).take index).length = index := by
        rw [List.length_take]
        omega
      have hdue : (typedSteps f)[index]? = some (step, expected) := by
        rw [hsteps, List.getElem?_append_right (by omega), hlen, Nat.sub_self]
        rfl
      rw [runSteps]
      cases hquiet : interruption? env control s with
      | mk why s₁ =>
          cases why with
          | some why => exact .stoppedBetween hmoment hquiet
          | none =>
              dsimp only
              cases hrun : runStep env invoke control f.flow.id input index step expected
                  context s₁ with
              | mk ending s₂ =>
                  cases ending with
                  | failed context' e => exact .failed hmoment hquiet hdue hrun
                  | interrupted why => exact .stoppedInside hmoment hquiet hdue hrun
                  | completed context' =>
                      -- The next moment is reached, and the rest is shorter by this step.
                      have hless : index < (typedSteps f).length :=
                        (List.getElem?_eq_some_iff.mp hdue).1
                      refine ih (.running index) (.next hmoment hquiet hdue hrun) ?_ hless
                      rw [List.take_add_one, hdue, Option.toList_some, List.append_assoc]
                      exact hsteps

/-- **Every run ends** in one of the ways: its input is refused, or it begins at the moment before
    all steps. -/
theorem execute_ends (env : Surroundings σ) (invoke : Invoker σ) (control : Control)
    (f : AdmittedFlow) (input : Record) (s : σ) :
    Ends env invoke control f input s (execute env invoke control f input s) := by
  rw [execute]
  cases hcheck : f.flow.input.check input with
  | error violation => exact .refused hcheck
  | ok u => exact runSteps_ends .pending (.start hcheck) rfl (Nat.zero_le _)

/-! ## What a run keeps -/

/-- Nothing that the surroundings do leads out of the relation. -/
structure Surroundings.Respects (env : Surroundings σ) (R : σ → σ → Prop) : Prop where
  refl : ∀ s, R s s
  trans : ∀ {s s' s''}, R s s' → R s' s'' → R s s''
  clock : ∀ s, R s (env.clock s).2
  record : ∀ event s, R s (env.record event s)

/-- No call leads out of the relation. -/
def Invoker.Respects (invoke : Invoker σ) (R : σ → σ → Prop) : Prop :=
  ∀ target input control s, R s (invoke target input control s).2

section

variable {R : σ → σ → Prop} (henv : env.Respects R)
include henv

theorem Passes.respects {s s' : σ} (h : Passes env s s') : R s s' := by
  induction h with
  | nothing => exact henv.refl s
  | reading before ih => exact henv.trans ih (henv.clock _)

theorem interruption?_respects {s s' : σ} {why : Option Interruption}
    (h : interruption? env control s = (why, s')) : R s s' :=
  (Passes.of_interruption? h).respects henv

theorem askGate_respects (flow : String) (step : Step) (index : Nat) (context : Context) (s : σ) :
    R s (askGate env flow step index context s).2 := by
  unfold askGate
  cases step.gate with
  | none => exact henv.refl s
  | some gate =>
      dsimp only
      split <;> exact henv.record _ s

variable (hinvoke : invoke.Respects R)
include hinvoke

theorem call_respects (control : Control) (step : Step) (input : Record) (s : σ) :
    R s (call env invoke control step input s).2 := by
  obtain ⟨handed, s₁, _, hbefore, hafter⟩ := call_passes env invoke control step input s
  have hcalled := hinvoke step.target input handed s₁
  exact henv.trans (hbefore.respects henv) (henv.trans hcalled (hafter.respects henv))

theorem runStep_respects {flow : String} {index : Nat} {step : Step} {expected : ValueType}
    {context : Context} {ending : StepEnd} {s s' : σ}
    (h : runStep env invoke control flow input index step expected context s = (ending, s')) :
    R s s' := by
  have hs' : s' = (runStep env invoke control flow input index step expected context s).2 := by
    rw [h]
  rw [hs', runStep]
  cases bindInputs step index input context with
  | error e => exact henv.refl s
  | ok bound =>
      dsimp only
      have hcalled := call_respects henv hinvoke control step bound s
      generalize call env invoke control step bound s = called at hcalled
      obtain ⟨ending, s₁⟩ := called
      cases ending with
      | interrupted why => exact hcalled
      | timedOut budget => exact hcalled
      | failed cause => exact hcalled
      | value v =>
          dsimp only
          split
          · -- Accepted: the step is recorded, and its gate is asked.
            exact henv.trans hcalled
              (henv.trans (henv.record _ s₁) (askGate_respects henv flow step index _ _))
          · exact hcalled

theorem Moment.respects {index : Nat} {context : Context} {s : σ}
    (h : Moment env invoke control f input start index context s) : R start s := by
  induction h with
  | start conforming => exact henv.refl start
  | next before quiet due completed ih =>
      have hstep := runStep_respects henv hinvoke completed
      exact henv.trans ih (henv.trans (interruption?_respects henv quiet) hstep)

/-- **What every stage keeps, a run keeps.**  Every end is a moment, at most one more look at the
    control and one more step, and then the event that the run has ended. -/
theorem Ends.respects {result : Report × σ} (h : Ends env invoke control f input start result) :
    R start result.2 := by
  cases h with
  | refused violated => exact henv.record _ start
  | stoppedBetween moment stopped =>
      have hlook := interruption?_respects henv stopped
      exact henv.trans (moment.respects henv hinvoke) (henv.trans hlook (henv.record _ _))
  | stoppedInside moment quiet due stopped =>
      have hlook := interruption?_respects henv quiet
      have hstep := runStep_respects henv hinvoke stopped
      exact henv.trans (moment.respects henv hinvoke)
        (henv.trans hlook (henv.trans hstep (henv.record _ _)))
  | failed moment quiet due failed =>
      have hlook := interruption?_respects henv quiet
      have hstep := runStep_respects henv hinvoke failed
      exact henv.trans (moment.respects henv hinvoke)
        (henv.trans hlook (henv.trans hstep (henv.record _ _)))
  | projected moment quiet output_eq =>
      have hlook := interruption?_respects henv quiet
      exact henv.trans (moment.respects henv hinvoke) (henv.trans hlook (henv.record _ _))
  | unprojected moment quiet output_eq =>
      have hlook := interruption?_respects henv quiet
      exact henv.trans (moment.respects henv hinvoke) (henv.trans hlook (henv.record _ _))

end

end Verdict.Run
