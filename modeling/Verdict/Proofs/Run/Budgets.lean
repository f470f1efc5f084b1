/-
  Budgets — a step times out if its budget has run out, and only then.

  Three readings of the clock decide, each with a comparison of its own: the deadline of the
  narrowed control has passed as soon as it is REACHED, a value is late once the budget is
  EXCEEDED, and the run's own control is asked last of all.

  1. **Data** — `BudgetedCall`: a moment of a run, and the call that it makes under a narrowed
     control, from the state in which the control is made to the state in which the target has
     answered.

  2. **Specification** — `OutOfTime`: the answer is a value that is late, or an interruption with
     which the run's own control has nothing to do.

  3. **One step** — a step that is due times out iff its call is out of time (`call_timedOut_iff`).
     Nothing is assumed for that.  That the budget has run out as well needs targets which heed the
     control they are handed (`Invoker.Heeding`): a control that has to stop, made from one that
     need not, has met the end of its budget (`Control.isOverdue_of_within`).

  4. **The run** — what is left of a run at a moment is fixed (`Moment.execute_eq`), so a call that
     is out of time ends the run it belongs to.
-/
import Verdict.Proofs.Run.Reasons
import Verdict.Proofs.Run.Coherence

namespace Verdict.Run

variable {σ : Type}

/-! ## Controls that have to stop -/

/-- A run under the control would have to stop now, for whatever reason. -/
def Stopped (env : Surroundings σ) (control : Control) (s : σ) : Prop :=
  (interruption? env control s).1 ≠ none

theorem stopped_iff {env : Surroundings σ} {control : Control} {s : σ} :
    Stopped env control s ↔
      env.cancelled s control.flag = true ∨ control.isOverdue (env.now s) = true := by
  unfold Stopped interruption? Surroundings.now
  by_cases hraised : env.cancelled s control.flag = true
  · rw [if_pos hraised]
    exact ⟨fun _ => Or.inl hraised, fun _ => nofun⟩
  · rw [if_neg hraised, or_iff_right hraised]
    cases hdeadline : control.deadline with
    | none =>
        -- Without a deadline the clock is not even read.
        have hnever : control.isOverdue (env.clock s).1 = false := by
          rw [Control.isOverdue, hdeadline]
        rw [hnever, if_pos Option.isNone_none]
        exact ⟨fun h => absurd rfl h, nofun⟩
    | some deadline =>
        rw [if_neg (by rw [Option.isNone_some]; exact Bool.false_ne_true)]
        dsimp only
        cases hoverdue : control.isOverdue (env.clock s).1 with
        | true => exact ⟨fun _ => rfl, fun _ => nofun⟩
        | false => exact ⟨fun h => absurd rfl h, nofun⟩

/-- An invoker whose targets take their time, and are interrupted only if the control that they
    are handed has to stop, for that reason or for the other one. -/
structure Invoker.Heeding (invoke : Invoker σ) (env : Surroundings σ) (flag : Flag) : Prop where
  later : invoke.Respects (Later env flag)
  stopped : ∀ {target input control s cause s' why}, control.flag = flag →
    invoke target input control s = (.error cause, s') → cause.interruption? = some why →
    Stopped env control s'

theorem Justified.stopped {env : Surroundings σ} {control : Control} {budgeted : Prop} {s : σ}
    {why : Interruption} (h : Justified env control budgeted s why) : Stopped env control s := by
  rw [stopped_iff]
  cases why with
  | cancelled => exact Or.inl h
  | deadlineExceeded =>
      rcases h with hoverdue | ⟨_, hraised⟩
      · exact Or.inr hoverdue
      · exact Or.inl hraised

/-- Whoever stops for a reason stops only if it has to. -/
theorem Invoker.Honest.heeding {invoke : Invoker σ} {env : Surroundings σ} {flag : Flag}
    {budgeted : Prop} (h : invoke.Honest env flag budgeted) : invoke.Heeding env flag where
  later := h.later
  stopped hflag hinvoke hwhy := (h.justified hflag hinvoke hwhy).stopped

/-! ## Calls under a budget -/

section

variable (env : Surroundings σ) (invoke : Invoker σ) (control : Control) (f : AdmittedFlow)
  (input : Record) (start : σ)

/-- A run from state `start` calls the target of a step that has a budget. -/
structure BudgetedCall where
  index : Nat
  context : Context
  /-- Before the run looks at its control. -/
  before : σ
  step : Step
  expected : ValueType
  budget : UInt64
  bound : Record
  /-- In this state the narrowed control is made. -/
  derived : σ
  answer : Except StepFailure Value
  /-- In this state the target has answered. -/
  returned : σ
  moment : Moment env invoke control f input start index context before
  quiet : interruption? env control before = (none, derived)
  due : (typedSteps f)[index]? = some (step, expected)
  budgeted : step.budget = some budget
  bindings : bindInputs step index input context = .ok bound
  answered : invoke step.target bound
    (control.within (env.now derived) (Duration.milliseconds budget.toNat))
    (env.clock (env.clock derived).2).2 = (answer, returned)

end

section

variable {env : Surroundings σ} {invoke : Invoker σ} {control : Control} {f : AdmittedFlow}
  {input : Record} {start : σ}

/-- How long the target may take. -/
def BudgetedCall.span (c : BudgetedCall env invoke control f input start) : Duration :=
  Duration.milliseconds c.budget.toNat

/-- The state in which the time of the call begins: its control is made. -/
def BudgetedCall.began (c : BudgetedCall env invoke control f input start) : σ :=
  (env.clock c.derived).2

/-- The budget of a call has run out. -/
inductive BudgetedCall.OutOfTime (c : BudgetedCall env invoke control f input start) : Prop
  /-- The target has answered, after more than its budget. -/
  | late {v : Value} (value : c.answer = .ok v)
      (exceeded : c.span < env.now c.returned - env.now c.began)
  /-- The target was interrupted, and the run itself need not stop. -/
  | alone {cause : StepFailure} {why : Interruption} (failure : c.answer = .error cause)
      (nested : cause.interruption? = some why) (own : ¬ Stopped env control c.returned)

namespace BudgetedCall

variable (c : BudgetedCall env invoke control f input start)

/-- **One call** times out iff it is out of time.  Nothing is assumed of the target or of the clock:
    the cases are those of the answer, and in each of them the program compares what `OutOfTime`
    says. -/
theorem call_timedOut_iff :
    (call env invoke control c.step c.bound c.derived).1 = .timedOut c.budget ↔ c.OutOfTime := by
  have hanswered := c.answered
  unfold Surroundings.now at hanswered
  rw [call, c.budgeted]
  dsimp only
  rw [hanswered]
  cases hanswer : c.answer with
  | ok v =>
      -- A value is late once the budget is exceeded.
      dsimp only
      by_cases hlate : c.span < env.now c.returned - env.now c.began
      · exact ⟨fun _ => .late hanswer hlate, fun _ => if_pos hlate⟩
      · refine ⟨fun h => ?_, fun h => ?_⟩
        · cases (if_neg hlate).symm.trans h
        · cases h with
          | late _ exceeded => exact absurd exceeded hlate
          | alone failure => cases hanswer.symm.trans failure
  | error cause =>
      dsimp only
      cases hnested : cause.interruption? with
      | none =>
          -- A failure that is no interruption is handed on, however long it has taken.
          refine ⟨nofun, fun h => ?_⟩
          cases h with
          | late value => cases hanswer.symm.trans value
          | alone failure nested =>
              cases hanswer.symm.trans failure
              cases hnested.symm.trans nested
      | some why =>
          -- An interruption is the budget's, unless the run's own control has to stop.
          dsimp only
          cases hown : (interruption? env control c.returned).1 with
          | none => exact ⟨fun _ => .alone hanswer hnested fun h => h hown, fun _ => rfl⟩
          | some reason =>
              refine ⟨nofun, fun h => ?_⟩
              cases h with
              | late value => cases hanswer.symm.trans value
              | alone _ _ own =>
                  refine absurd (fun hquiet => ?_) own
                  cases hown.symm.trans hquiet

/-- **No spurious timeouts**: what is out of time has used up its budget.  For a value this is what
    was compared; an interrupted target has heeded a control that had to stop, and if the control of
    the run need not, then it is the end of the budget that was met. -/
theorem OutOfTime.spent {c : BudgetedCall env invoke control f input start} (h : c.OutOfTime)
    (forward : env.Forward control.flag) (heeding : invoke.Heeding env control.flag) :
    env.now c.derived + c.span ≤ env.now c.returned := by
  cases h with
  | late value exceeded =>
      have hbegan : env.now c.derived ≤ env.now c.began := (forward.clock c.derived).now
      have hover : c.span + env.now c.began < env.now c.returned := Nat.add_lt_of_lt_sub exceeded
      calc env.now c.derived + c.span
          ≤ env.now c.began + c.span := Nat.add_le_add_right hbegan c.span
        _ = c.span + env.now c.began := Nat.add_comm ..
        _ ≤ env.now c.returned := Nat.le_of_lt hover
  | alone failure nested own =>
      have hanswered := c.answered
      rw [failure] at hanswered
      have hstopped := heeding.stopped (Control.flag_within ..) hanswered nested
      rw [stopped_iff, Control.flag_within] at hstopped
      rw [stopped_iff] at own
      rcases hstopped with hraised | hoverdue
      · -- The flag is the run's own.
        exact absurd (Or.inl hraised) own
      · rcases Control.isOverdue_of_within hoverdue with hpassed | hspent
        · exact absurd (Or.inr hpassed) own
        · exact hspent

end BudgetedCall

/-! ## The rest of a run -/

/-- **From a moment on** a run does what is left of its steps.  So what the step that is due comes
    to decides about the run, and a moment is not only one that the run MAY have passed. -/
theorem Moment.execute_eq {index : Nat} {context : Context} {s : σ}
    (h : Moment env invoke control f input start index context s) :
    ∃ status, execute env invoke control f input start
      = runSteps env invoke control f.flow input status index context
          ((typedSteps f).drop index) s := by
  induction h with
  | start conforming =>
      refine ⟨.pending, ?_⟩
      rw [execute, conforming]
      rfl
  | @next index context context' s s₁ s₂ step expected before quiet due completed ih =>
      obtain ⟨status, hrest⟩ := ih
      obtain ⟨hless, hstep⟩ := List.getElem?_eq_some_iff.mp due
      refine ⟨.running index, ?_⟩
      rw [hrest, List.drop_eq_getElem_cons hless, hstep, runSteps, quiet]
      dsimp only
      rw [completed]

/-- **No missed timeouts**: a call that is out of time ends its run, at its step and with the
    context that the step has found. -/
theorem BudgetedCall.OutOfTime.ends {c : BudgetedCall env invoke control f input start}
    (h : c.OutOfTime) :
    (execute env invoke control f input start).1
      = ⟨.failedAtStep c.index c.step.name, c.context,
          .error (.stepTimedOut c.step.name c.index c.budget)⟩ := by
  obtain ⟨status, hrest⟩ := c.moment.execute_eq
  obtain ⟨hless, hstep⟩ := List.getElem?_eq_some_iff.mp c.due
  have hcall := c.call_timedOut_iff.mpr h
  have hrun : (runStep env invoke control f.flow.id input c.index c.step c.expected c.context
      c.derived).1 = .failed c.context (.stepTimedOut c.step.name c.index c.budget) := by
    rw [runStep, c.bindings]
    dsimp only
    generalize call env invoke control c.step c.bound c.derived = called at hcall
    obtain ⟨ending, s'⟩ := called
    change ending = _ at hcall
    rw [hcall]
  rw [hrest, List.drop_eq_getElem_cons hless, hstep, runSteps, c.quiet]
  dsimp only
  generalize runStep env invoke control f.flow.id input c.index c.step c.expected c.context
    c.derived = ran at hrun
  obtain ⟨ending, s'⟩ := ran
  change ending = _ at hrun
  rw [hrun]
  rfl

/-- A step that has timed out has made a call that was out of time. -/
theorem runStep_timedOut {step : Step} {index i : Nat} {bound : Record} {expected : ValueType}
    {context context' : Context} {name : String} {budget : UInt64} {s s' : σ}
    (hbound : bindInputs step index input context = .ok bound)
    (h : runStep env invoke control f.flow.id input index step expected context s
      = (.failed context' (.stepTimedOut name i budget), s')) :
    name = step.name ∧ i = index ∧ step.budget = some budget
      ∧ (call env invoke control step bound s).1 = .timedOut budget := by
  have hcall := call_ends env invoke control step bound s
  rw [runStep, hbound] at h
  dsimp only at h
  generalize call env invoke control step bound s = called at h hcall ⊢
  obtain ⟨ending, s₁⟩ := called
  cases ending with
  | interrupted why => cases h
  | failed cause => cases h
  | timedOut budget' =>
      cases h
      cases hcall with
      | timedOut budgeted => exact ⟨rfl, rfl, budgeted, rfl⟩
  | value v =>
      -- A mismatch or a failed gate is another error.
      dsimp only at h
      split at h
      · unfold askGate at h
        split at h
        · cases h
        · dsimp only at h
          split at h <;> cases h
      · cases h

/-! ## Runs -/

variable {registry : Registry} {id : String}

/-- A run that ends in a timeout has made a call that was out of time.  Only a failed step ends a
    run so, and its bindings were read; the call is put together from the moment, the step and what
    the target has answered. -/
theorem Ends.outOfTime (hr : registry.Sound) (hf : registry.flows.get? id = some f)
    {run : Report × σ} (h : Ends env invoke control f input start run) {name : String} {i : Nat}
    {budget : UInt64} (houtcome : run.1.outcome = .error (.stepTimedOut name i budget)) :
    ∃ c : BudgetedCall env invoke control f input start,
      c.index = i ∧ c.step.name = name ∧ c.budget = budget ∧ c.OutOfTime := by
  cases h with
  | refused violated => cases houtcome
  | @stoppedBetween index context s s₁ why moment stopped => cases why <;> cases houtcome
  | @stoppedInside index context s s₁ s₂ step expected why moment quiet due stopped =>
      cases why <;> cases houtcome
  | @failed index context context' s s₁ s₂ step expected e moment quiet due failed =>
      cases houtcome
      obtain ⟨bound, hbound, _⟩ := moment.due_ends hr hf due failed
      obtain ⟨hname, hindex, hbudget, hcall⟩ := runStep_timedOut hbound failed
      let c : BudgetedCall env invoke control f input start :=
        { index, context, before := s, step, expected, budget, bound, derived := s₁
          answer := _, returned := _, moment, quiet, due, budgeted := hbudget, bindings := hbound
          answered := rfl }
      exact ⟨c, hindex.symm, hname.symm, rfl, c.call_timedOut_iff.mp hcall⟩
  | projected moment quiet output_eq => cases houtcome
  | @unprojected context s s₁ status e moment quiet output_eq =>
      obtain ⟨read, hread, _⟩ := moment.projectOutputs_eq_ok hr hf
      cases hread.symm.trans output_eq

/-- The report of a run that has timed out, and its calls.  Of the five endings only that of a
    failed step has an error of this kind. -/
theorem Coherent.of_timedOut {report : Report} {calls : List Call}
    (h : Coherent f input report calls) {name : String} {i : Nat} {budget : UInt64}
    (houtcome : report.outcome = .error (.stepTimedOut name i budget)) :
    (∃ step, f.flow.steps[i]? = some step ∧ step.name = name ∧ step.budget = some budget)
      ∧ report.status = .failedAtStep i name ∧ report.context.length = i
      ∧ calls.map (·.1) = (f.flow.steps.take (i + 1)).map (·.target) := by
  obtain ⟨ending, hfits, _⟩ := h.ending
  cases ending with
  | refused =>
      obtain ⟨_, _, _, hother, _⟩ := hfits
      cases hother.symm.trans houtcome
  | succeeded =>
      obtain ⟨_, _, hother, _⟩ := hfits
      cases hother.symm.trans houtcome
  | gateFailed =>
      obtain ⟨_, _, _, _, _, _, hother, _⟩ := hfits
      cases hother.symm.trans houtcome
  | interrupted =>
      obtain ⟨why, _, hother, _⟩ := hfits
      cases why <;> cases hother.symm.trans houtcome
  | stepFailed =>
      obtain ⟨index, step, e, hstep, herror, hstatus, hother, hlen, hcalls, _⟩ := hfits
      cases hother.symm.trans houtcome
      cases herror with
      | timedOut budgeted =>
          have htargets := h.targets
          rw [hcalls] at htargets
          exact ⟨⟨step, hstep, rfl, budgeted⟩, hstatus, hlen, htargets⟩

/-- No entry of a typed context stands under the name of the step that is due. -/
theorem Context.Typed.get?_due (hr : registry.Sound) (hf : registry.flows.get? id = some f)
    {index : Nat} {context : Context} {step : Step}
    (hctx : context.Typed ((f.flow.produced f.facts).take index))
    (hstep : f.flow.steps[index]? = some step) : context.get? step.name = none := by
  obtain ⟨_, _, _, hadmitted, _⟩ := (hr.admitted hf).step index step hstep
  have hfresh := Produced.type?_eq_none_iff.mp hadmitted.fresh
  rw [Context.get?, Option.map_eq_none_iff, List.find?_eq_none]
  intro entry hentry heq
  have hname : entry.1 ∈ context.entries.map (·.1) := List.mem_map_of_mem hentry
  rw [hctx.map_name, beq_iff_eq.mp heq] at hname
  exact hfresh hname

/-- What holds of a run that has ended with a report and has made some calls: it has timed out iff
    one of its calls was out of time, and then its budget has run out. -/
structure EnforcesBudgets (env : Surroundings σ) (invoke : Invoker σ) (control : Control)
    (f : AdmittedFlow) (input : Record) (start : σ) (report : Report) (calls : List Call) :
    Prop where
  /-- No spurious timeout: the step has a budget, all of it has passed, the step has left nothing,
      and it was the last one to be called. -/
  timedOut : ∀ name i budget, report.outcome = .error (.stepTimedOut name i budget) →
    (∃ step, f.flow.steps[i]? = some step ∧ step.name = name ∧ step.budget = some budget)
      ∧ (∃ c : BudgetedCall env invoke control f input start,
          c.index = i ∧ c.step.name = name ∧ c.budget = budget ∧ c.OutOfTime
            ∧ env.now c.derived + Duration.milliseconds budget.toNat ≤ env.now c.returned)
      ∧ report.context.length = i ∧ report.context.get? name = none
      ∧ calls.map (·.1) = (f.flow.steps.take (i + 1)).map (·.target)
  /-- No missed timeout: a call that is out of time ends the run. -/
  outOfTime : ∀ c : BudgetedCall env invoke control f input start, c.OutOfTime →
    report.outcome = .error (.stepTimedOut c.step.name c.index c.budget)
      ∧ report.status = .failedAtStep c.index c.step.name
  /-- No timeout without a budget. -/
  unbudgeted : ∀ i step, f.flow.steps[i]? = some step → step.budget = none →
    ∀ name budget, report.outcome ≠ .error (.stepTimedOut name i budget)

end

/-- **Budgets.**  Under a clock that does not go back and a flag that stays raised, every run of a
    registered flow enforces the budgets of its steps, if its targets are interrupted only when
    the control they are handed has to stop.  The targets that the engine calls do so, on every
    level.

    That a timeout is neither spurious nor missed are two halves: the first goes from the report to
    a call of the run, the second from a call of the run to the report. -/
theorem run_enforces_budgets (limits : Limits) (ds : List Definition) {id : String}
    {f : AdmittedFlow} (hf : (Registry.ofDefinitions limits ds).flows.get? id = some f)
    (env : Surroundings σ) (control : Control) (forward : env.Forward control.flag)
    (input : Record) (s : σ) :
    (∀ invoke : Invoker σ, invoke.Heeding env control.flag →
        ∃ calls, execute env.logged invoke.logged control f input (s, [])
            = ((execute env invoke control f input s).1, (execute env invoke control f input s).2,
                calls)
          ∧ EnforcesBudgets env invoke control f input s
              (execute env invoke control f input s).1 calls)
      ∧ ∀ levels, (invoker env (Registry.ofDefinitions limits ds) levels).Heeding env
          control.flag := by
  have hr := Registry.sound_ofDefinitions limits ds
  refine ⟨fun invoke heeding => ?_, fun levels => (invoker_honest forward _ levels).heeding⟩
  obtain ⟨calls, hlogged⟩ := execute_logged env invoke control f input s
  have hcoherent := (execute_ends env.logged invoke.logged control f input (s, [])).coherent hr hf
  rw [hlogged] at hcoherent
  refine ⟨calls, hlogged, ?_, ?_, ?_⟩
  · -- No spurious timeout.
    intro name i budget houtcome
    obtain ⟨hstep, _, hlen, hcalls⟩ := hcoherent.of_timedOut houtcome
    obtain ⟨c, rfl, rfl, rfl, hout⟩ :=
      (execute_ends env invoke control f input s).outOfTime hr hf houtcome
    have hcontext : (execute env invoke control f input s).1.context = c.context := by
      rw [hout.ends]
    have hdue := (List.getElem?_zip_eq_some.mp c.due).1
    have hfresh := (c.moment.typed hr hf).2.get?_due hr hf hdue
    have hspent := hout.spent forward heeding
    exact ⟨hstep, ⟨c, rfl, rfl, rfl, hout, hspent⟩, hlen, hcontext ▸ hfresh, hcalls⟩
  · -- No missed timeout.
    intro c hout
    rw [hout.ends]
    exact ⟨rfl, rfl⟩
  · -- No timeout without a budget: the step at the index of the report has one.
    intro i step hstep hnone name budget houtcome
    obtain ⟨⟨other, hother, _, hbudget⟩, _⟩ := hcoherent.of_timedOut houtcome
    cases hstep.symm.trans hother
    cases hnone.symm.trans hbudget

/-! ## A gate that is too slow -/

/-- Surroundings in which the step of the gate takes a second, and in which nobody cancels
    anything; the state is the time. -/
def Surroundings.lateGate : Surroundings Instant where
  clock s := (s, s)
  cancelled _ _ := false
  record event s :=
    match event with
    | .stepCompleted flow _ _ => if flow = "gate" then s + Duration.second else s
    | _ => s

theorem lateGate_forward (flag : Flag) : Surroundings.lateGate.Forward flag := by
  have hlater : ∀ s s' : Instant, s ≤ s' → Later .lateGate flag s s' := fun _ _ hle => ⟨id, hle⟩
  refine ⟨fun s => hlater s s (Nat.le_refl s), fun event s => ?_⟩
  cases event with
  | stepCompleted flow step index =>
      show Later .lateGate flag s (if flow = "gate" then s + Duration.second else s)
      split
      · exact hlater s _ (Nat.le_add_right s Duration.second)
      · exact hlater s s (Nat.le_refl s)
  | runFinished flow status completed => exact hlater s s (Nat.le_refl s)
  | tableEvaluated table rule outcome => exact hlater s s (Nat.le_refl s)
  | gateEvaluated flow step index condition passed => exact hlater s s (Nat.le_refl s)

/-- What the admission of the flow in a hurry finds out. -/
def admittedHurried : AdmittedFlow where
  flow := hurriedFlow
  facts :=
    { outputShape := .cons "years" .float .nil
      nestingDepth := 2
      stepOutputs := [.record (.cons "years" .float .nil)] }

/-- The nested run is interrupted by nothing but its step's budget of 20 ms: the run times out. -/
theorem run_enforces_budgets_hurried :
    hurriedRegistry.flows.get? "hurried" = some admittedHurried
      ∧ Surroundings.lateGate.Forward (Control.new ⟨0⟩).flag
      ∧ (invoker .lateGate hurriedRegistry 2).Heeding .lateGate (Control.new ⟨0⟩).flag
      ∧ (run .lateGate hurriedRegistry "hurried" ofAge (.new ⟨0⟩) 0).1.outcome
          = .error (.stepTimedOut "gate" 0 20)
      ∧ ∃ c : BudgetedCall .lateGate (invoker .lateGate hurriedRegistry 2) (.new ⟨0⟩)
            admittedHurried ofAge 0,
          c.OutOfTime
            ∧ Surroundings.lateGate.now c.derived + Duration.milliseconds 20
                ≤ Surroundings.lateGate.now c.returned := by
  have hf : hurriedRegistry.flows.get? "hurried" = some admittedHurried := rfl
  have forward := lateGate_forward (Control.new ⟨0⟩).flag
  obtain ⟨hruns, hheeding⟩ := run_enforces_budgets .default
    (Registry.visitDefinitions ++ [Definition.flow hurriedFlow]) hf .lateGate (.new ⟨0⟩) forward
    ofAge 0
  have houtcome : (run .lateGate hurriedRegistry "hurried" ofAge (.new ⟨0⟩) 0).1.outcome
      = .error (.stepTimedOut "gate" 0 20) := rfl
  obtain ⟨calls, _, henforces⟩ := hruns _ (hheeding 2)
  obtain ⟨_, ⟨c, _, _, _, hout, hspent⟩, _⟩ := henforces.timedOut "gate" 0 20 houtcome
  exact ⟨hf, forward, hheeding 2, houtcome, c, hout, hspent⟩

end Verdict.Run
