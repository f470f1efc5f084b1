/-
  Typed runs — what a run knows of its context and hands to its targets, whatever these answer.

  1. **Moments** — at every moment the context is typed (`Moment.typed`), so that the bindings of
     the step that is due are read; and so is the context that a run reports in the end, however it
     has ended (`Ends.context_typed`).

  2. **Calls** — `CallsFit`: call after call goes to the target of the next step, with a record that
     conforms to the declared input of that target.

  3. **Runs** — `run_typed` collects what holds of EVERY run, of any invoker: no answer of a target
     gets into the context unless it was accepted, and what is read out of the context later on
     conforms again.
-/
import Verdict.Proofs.Registry.History
import Verdict.Proofs.Run.Calls
import Verdict.Proofs.Run.Sources

namespace Verdict.Run

variable {σ : Type}

/-! ## Moments -/

section

variable {registry : Registry} {id : String} {f : AdmittedFlow} {env : Surroundings σ}
  {invoke : Invoker σ} {control : Control} {input : Record} {start : σ}

theorem length_typedSteps (hr : registry.Sound) (hf : registry.flows.get? id = some f) :
    (typedSteps f).length = f.flow.steps.length := by
  rw [typedSteps, List.length_zip, (hr.admitted hf).length_stepOutputs, Nat.min_self]

/-- The step that is due was admitted after the steps in front of it, for the type of its
    target. -/
theorem due_admitted (hr : registry.Sound) (hf : registry.flows.get? id = some f) {index : Nat}
    {step : Step} {expected : ValueType} (hdue : (typedSteps f)[index]? = some (step, expected)) :
    ∃ target, registry.signature? step.target = some target ∧ target.output = expected
      ∧ target.nestingDepth + 1 ≤ f.facts.nestingDepth
      ∧ f.flow.StepAdmitted registry.limits ((f.flow.produced f.facts).take index) step target
      ∧ (f.flow.produced f.facts)[index]? = some (step.name, expected) := by
  obtain ⟨hstep, hexpected⟩ := List.getElem?_zip_eq_some.mp hdue
  obtain ⟨target, hregistered, hdepth, hadmitted, hproduced⟩ :=
    (hr.admitted hf).step index step hstep
  obtain ⟨_, htype⟩ := List.getElem?_zip_eq_some.mp hproduced
  obtain rfl : target.output = expected := Option.some.inj (htype.symm.trans hexpected)
  exact ⟨target, hregistered, rfl, hdepth, hadmitted, hproduced⟩

/-- **The bindings of the step that is due** are read, into a record for its target: the check of
    the flow has seen to it that every source names what an earlier step produces, and that the
    type there fits the field that it is bound to. -/
theorem bindInputs_due (hr : registry.Sound) (hf : registry.flows.get? id = some f) {index : Nat}
    {step : Step} {expected : ValueType} {context : Context}
    (hdue : (typedSteps f)[index]? = some (step, expected))
    (hin : Conforms (.record f.flow.input) (.record input))
    (hctx : context.Typed ((f.flow.produced f.facts).take index)) :
    ∃ target bound, registry.signature? step.target = some target
      ∧ bindInputs step index input context = .ok bound ∧ target.input.check bound = .ok () := by
  obtain ⟨target, hregistered, _, _, hadmitted, _⟩ := due_admitted hr hf hdue
  have hdefect := (hr.defect?_signature hregistered).1
  obtain ⟨bound, hbound, hcheck⟩ := bindInputs_eq_ok index hin hctx hadmitted hdefect
  exact ⟨target, bound, hregistered, hbound, hcheck⟩

/-- **The step that is due** reads its bindings, and then it comes to what a step can come to. -/
theorem runStep_due_ends (hr : registry.Sound) (hf : registry.flows.get? id = some f)
    {index : Nat} {step : Step} {expected : ValueType} {context : Context} {ending : StepEnd}
    {s s' : σ} (hdue : (typedSteps f)[index]? = some (step, expected))
    (hin : Conforms (.record f.flow.input) (.record input))
    (hctx : context.Typed ((f.flow.produced f.facts).take index))
    (hran : runStep env invoke control f.flow.id input index step expected context s
      = (ending, s')) :
    ∃ bound, bindInputs step index input context = .ok bound
      ∧ StepEnds invoke index step expected context bound ending := by
  obtain ⟨_, bound, _, hbound, _⟩ := bindInputs_due hr hf hdue hin hctx
  have hends := runStep_ends hbound env invoke control f.flow.id expected s
  rw [hran] at hends
  exact ⟨bound, hbound, hends⟩

/-- What the step that is due leaves behind if it comes to storing its result: the value is coerced
    to the type that the check has noted for the step, so the context stays typed by one entry
    more. -/
theorem Context.Typed.push_due (hr : registry.Sound) (hf : registry.flows.get? id = some f)
    {index : Nat} {step : Step} {expected : ValueType} {context : Context} {v : Value}
    (hdue : (typedSteps f)[index]? = some (step, expected))
    (hctx : context.Typed ((f.flow.produced f.facts).take index))
    (haccepted : expected.accepts v = true) :
    (context.push step.name (expected.coerce v)).Typed
      ((f.flow.produced f.facts).take (index + 1)) := by
  obtain ⟨target, hregistered, rfl, _, _, hproduced⟩ := due_admitted hr hf hdue
  have hdefect := (hr.defect?_signature hregistered).2
  rw [List.take_add_one, hproduced]
  exact hctx.push hdefect (ValueType.accepts_iff.mp haccepted) step.name

/-- **The invariant of a run.**  At every moment the input conforms, and the context is what the
    steps in front have left.

    It needs nothing of the invoker: an answer that is not of the declared type never gets past
    `accepts`, and one that is gets coerced on its way into the context. -/
theorem Moment.typed (hr : registry.Sound) (hf : registry.flows.get? id = some f) {index : Nat}
    {context : Context} {s : σ} (h : Moment env invoke control f input start index context s) :
    Conforms (.record f.flow.input) (.record input)
      ∧ context.Typed ((f.flow.produced f.facts).take index) := by
  induction h with
  | start conforming => exact ⟨Shape.check_eq_ok_iff.mp conforming, .empty⟩
  | @next index context context' _ s₁ _ step expected _ _ due completed ih =>
      -- A step that completes has stored a value that its type accepts.
      obtain ⟨hin, hctx⟩ := ih
      obtain ⟨_, _, hends⟩ := runStep_due_ends hr hf due hin hctx completed
      cases hends with
      | completed _ accepted _ => exact ⟨hin, hctx.push_due hr hf due accepted⟩

/-- At a moment it is so without more ado. -/
theorem Moment.due_ends (hr : registry.Sound) (hf : registry.flows.get? id = some f) {index : Nat}
    {context : Context} {step : Step} {expected : ValueType} {ending : StepEnd} {s s₁ s₂ : σ}
    (h : Moment env invoke control f input start index context s)
    (hdue : (typedSteps f)[index]? = some (step, expected))
    (hran : runStep env invoke control f.flow.id input index step expected context s₁
      = (ending, s₂)) :
    ∃ bound, bindInputs step index input context = .ok bound
      ∧ StepEnds invoke index step expected context bound ending := by
  obtain ⟨hin, hctx⟩ := h.typed hr hf
  exact runStep_due_ends hr hf hdue hin hctx hran

theorem Moment.index_le {index : Nat} {context : Context} {s : σ}
    (h : Moment env invoke control f input start index context s) :
    index ≤ (typedSteps f).length := by
  cases h with
  | start => exact Nat.zero_le _
  | next _ _ due _ => exact (List.getElem?_eq_some_iff.mp due).1

/-- As many steps are completed as entries stand in the context. -/
theorem Moment.length_context (hr : registry.Sound) (hf : registry.flows.get? id = some f)
    {index : Nat} {context : Context} {s : σ}
    (h : Moment env invoke control f input start index context s) : context.length = index := by
  have hle := h.index_le
  have hlen := (h.typed hr hf).2.length_eq
  rw [typedSteps, List.length_zip] at hle
  rw [List.length_take, Flow.produced, List.length_zip, List.length_map] at hlen
  omega

/-- However the step that is due ends, it leaves a typed context.  A step that its gate refuses has
    stored its result before, as one that completes; all others leave the context as it was. -/
theorem Context.Typed.contextAfter (hr : registry.Sound) (hf : registry.flows.get? id = some f)
    {step : Step} {expected : ValueType} {context : Context} {bound : Record} {ending : StepEnd}
    (hctx : context.Typed ((f.flow.produced f.facts).take context.length))
    (hdue : (typedSteps f)[context.length]? = some (step, expected))
    (hends : StepEnds invoke context.length step expected context bound ending) :
    (ending.contextAfter context).Typed
      ((f.flow.produced f.facts).take (ending.contextAfter context).length) := by
  cases hends with
  | completed _ accepted _ => exact Context.length_push .. ▸ hctx.push_due hr hf hdue accepted
  | gateFailed _ accepted _ _ => exact Context.length_push .. ▸ hctx.push_due hr hf hdue accepted
  | mismatched _ _ => exact hctx
  | timedOut _ => exact hctx
  | stepFailed _ => exact hctx
  | interrupted _ => exact hctx

/-- **However a run ends**, the context that it reports is typed. -/
theorem Ends.context_typed (hr : registry.Sound) (hf : registry.flows.get? id = some f)
    {run : Report × σ} (h : Ends env invoke control f input start run) :
    run.1.context.Typed ((f.flow.produced f.facts).take run.1.context.length) := by
  cases h with
  | refused violated => exact .empty
  | stoppedBetween moment stopped => exact moment.length_eq ▸ (moment.typed hr hf).2
  | stoppedInside moment quiet due stopped => exact moment.length_eq ▸ (moment.typed hr hf).2
  | @failed index context context' s s₁ s₂ step expected e moment quiet due failed =>
      -- The failed step may have stored its result.
      obtain ⟨_, _, hends⟩ := moment.due_ends hr hf due failed
      obtain rfl := moment.length_eq
      exact (moment.typed hr hf).2.contextAfter hr hf due hends
  | projected moment quiet output_eq => exact moment.length_eq ▸ (moment.typed hr hf).2
  | unprojected moment quiet output_eq => exact moment.length_eq ▸ (moment.typed hr hf).2

/-! ## Calls -/

/-- Call after call, what the steps of a flow hand to their targets: a record that conforms to the
    declared input of the target. -/
def CallsFit (registry : Registry) (flow : Flow) (calls : List Call) : Prop :=
  ∀ (j : Nat) (target : Target) (record : Record), calls[j]? = some (target, record) →
    ∃ (step : Step) (signature : Signature), flow.steps[j]? = some step ∧ step.target = target
      ∧ registry.signature? target = some signature ∧ signature.input.check record = .ok ()

theorem CallsFit.nil {flow : Flow} : CallsFit registry flow [] := by
  intro j target record hj
  rw [List.getElem?_nil] at hj
  exact nomatch hj

theorem CallsFit.push {flow : Flow} {calls : List Call} (h : CallsFit registry flow calls)
    {step : Step} {signature : Signature} {record : Record}
    (hstep : flow.steps[calls.length]? = some step)
    (hregistered : registry.signature? step.target = some signature)
    (hcheck : signature.input.check record = .ok ()) :
    CallsFit registry flow (calls ++ [(step.target, record)]) := by
  intro j target r hj
  rcases Nat.lt_trichotomy j calls.length with hlt | rfl | hgt
  · -- one of the calls before
    rw [List.getElem?_append_left hlt] at hj
    exact h j target r hj
  · -- the new one
    rw [List.getElem?_append_right (Nat.le_refl _), Nat.sub_self] at hj
    cases hj
    exact ⟨step, signature, hstep, rfl, hregistered, hcheck⟩
  · -- none
    rw [List.getElem?_eq_none (by rw [List.length_append, List.length_singleton]; omega)] at hj
    exact nomatch hj

/-- **One step** makes one more call, and a fitting one. -/
theorem runStep_calls_fit (hr : registry.Sound) (hf : registry.flows.get? id = some f)
    {index : Nat} {step : Step} {expected : ValueType} {context : Context} {s : σ × List Call}
    (hdue : (typedSteps f)[index]? = some (step, expected))
    (hin : Conforms (.record f.flow.input) (.record input))
    (hctx : context.Typed ((f.flow.produced f.facts).take index))
    (hlen : s.2.length = index) (hfit : CallsFit registry f.flow s.2) (env : Surroundings σ)
    (invoke : Invoker σ) (control : Control) :
    ∃ bound, bindInputs step index input context = .ok bound
      ∧ (runStep env.logged invoke.logged control f.flow.id input index step expected context
          s).2.2 = s.2 ++ [(step.target, bound)]
      ∧ CallsFit registry f.flow (s.2 ++ [(step.target, bound)]) := by
  obtain ⟨hstep, _⟩ := List.getElem?_zip_eq_some.mp hdue
  obtain ⟨target, bound, hregistered, hbound, hcheck⟩ := bindInputs_due hr hf hdue hin hctx
  subst hlen
  exact ⟨bound, hbound, runStep_calls hbound env invoke control f.flow.id expected s,
    hfit.push hstep hregistered hcheck⟩

/-- **The invariant of the calls.**  At every moment each completed step has made one call, and a
    fitting one; looking at the control in between makes none. -/
theorem Moment.calls_fit (hr : registry.Sound) (hf : registry.flows.get? id = some f)
    {index : Nat} {context : Context} {s : σ × List Call}
    (h : Moment env.logged invoke.logged control f input (start, []) index context s) :
    s.2.length = index ∧ CallsFit registry f.flow s.2 := by
  induction h with
  | start conforming => exact ⟨rfl, .nil⟩
  | @next index context context' s s₁ s₂ step expected before quiet due completed ih =>
      obtain ⟨hin, hctx⟩ := before.typed hr hf
      rw [← calls_of_interruption? quiet] at ih
      obtain ⟨bound, _, hcalls, hfit⟩ :=
        runStep_calls_fit hr hf due hin hctx ih.1 ih.2 env invoke control
      rw [completed] at hcalls
      change s₂.2 = _ at hcalls
      rw [hcalls]
      exact ⟨by rw [List.length_append, ih.1, List.length_singleton], hfit⟩

/-- What running the step that is due adds to a run, however the step ends. -/
theorem Moment.step_ends (hr : registry.Sound) (hf : registry.flows.get? id = some f)
    {index : Nat} {context : Context} {step : Step} {expected : ValueType} {ending : StepEnd}
    {s s₁ s₂ : σ × List Call}
    (h : Moment env.logged invoke.logged control f input (start, []) index context s)
    (hquiet : interruption? env.logged control s = (none, s₁))
    (hdue : (typedSteps f)[index]? = some (step, expected))
    (hran : runStep env.logged invoke.logged control f.flow.id input index step expected context s₁
      = (ending, s₂)) :
    ∃ bound, StepEnds invoke.logged index step expected context bound ending
      ∧ s₂.2 = s.2 ++ [(step.target, bound)] ∧ CallsFit registry f.flow s₂.2 := by
  obtain ⟨hin, hctx⟩ := h.typed hr hf
  obtain ⟨hlen, hfit⟩ := h.calls_fit hr hf
  rw [← calls_of_interruption? hquiet] at hlen hfit ⊢
  obtain ⟨bound, hbound, hcalls, hfit'⟩ :=
    runStep_calls_fit hr hf hdue hin hctx hlen hfit env invoke control
  have hends := runStep_ends hbound env.logged invoke.logged control f.flow.id expected s₁
  rw [hran] at hends hcalls
  change s₂.2 = _ at hcalls
  exact ⟨bound, hends, hcalls, hcalls ▸ hfit'⟩

/-- Once all steps are completed the output is read, and it is typed: the context then covers all
    that the flow produces, and the check of the outputs was made against just that. -/
theorem Moment.projectOutputs_eq_ok (hr : registry.Sound) (hf : registry.flows.get? id = some f)
    {context : Context} {s : σ}
    (h : Moment env invoke control f input start (typedSteps f).length context s) :
    ∃ output, projectOutputs f.flow input context = .ok output
      ∧ Conforms (.record f.facts.outputShape) (.record output)
      ∧ (Value.record output).Widened (.record f.facts.outputShape)
      ∧ output.names.Perm (f.flow.outputs.map (·.name)) := by
  obtain ⟨hin, hctx⟩ := h.typed hr hf
  have hall : (f.flow.produced f.facts).take (typedSteps f).length
      = f.flow.produced f.facts := by
    apply List.take_of_length_le
    refine Nat.le_of_eq ?_
    rw [typedSteps, Flow.produced, List.length_zip, List.length_zip, List.length_map]
  rw [hall] at hctx
  exact Run.projectOutputs_eq_ok (hr.admitted hf) hin hctx

/-! ## Runs -/

/-- Entry by entry, what the steps of a flow leave in a context: under the name of the step a value
    that its result type accepts, with no integer where a float is declared. -/
def Context.LeftBy (f : AdmittedFlow) (context : Context) : Prop :=
  ∀ (i : Nat) (name : String) (v : Value), context.entries[i]? = some (name, v) →
    ∃ (step : Step) (expected : ValueType), f.flow.steps[i]? = some step
      ∧ f.facts.stepOutputs[i]? = some expected ∧ name = step.name
      ∧ expected.accepts v = true ∧ v.Widened expected

theorem Context.Typed.leftBy {k : Nat} {context : Context}
    (h : context.Typed ((f.flow.produced f.facts).take k)) : context.LeftBy f := by
  intro i name v hentry
  obtain ⟨hlen, hfits⟩ := List.forall₂_iff_get.mp h
  obtain ⟨hi, hget⟩ := List.getElem?_eq_some_iff.mp hentry
  have hi' : i < ((f.flow.produced f.facts).take k).length := hlen ▸ hi
  have hfit := hfits i hi' hi
  have hproduced : (f.flow.produced f.facts)[i]?
      = some (((f.flow.produced f.facts).take k).get ⟨i, hi'⟩) := by
    rw [List.length_take] at hi'
    rw [List.get_eq_getElem, List.getElem_take]
    exact List.getElem?_eq_getElem _
  change context.entries.get ⟨i, hi⟩ = (name, v) at hget
  rw [hget] at hfit
  obtain ⟨hname, hconf, hwide⟩ := hfit
  obtain ⟨hstep, hexpected⟩ := List.getElem?_zip_eq_some.mp hproduced
  rw [List.getElem?_map] at hstep
  obtain ⟨step, hstep, hstepname⟩ := Option.map_eq_some_iff.mp hstep
  exact ⟨step, _, hstep, hexpected, hname.trans hstepname.symm, ValueType.accepts_iff.mpr hconf,
    hwide⟩

/-- What holds of a run that has ended with a report and has made some calls. -/
structure TypedRun (registry : Registry) (f : AdmittedFlow) (report : Report)
    (calls : List Call) : Prop where
  context : report.context.LeftBy f
  calls : CallsFit registry f.flow calls
  resolved : ∀ step index reference,
    report.outcome ≠ .error (.unresolvedSource step index reference)
  output : ∀ output, report.outcome = .ok output →
    (ValueType.record f.facts.outputShape).accepts (.record output) = true
      ∧ (Value.record output).Widened (.record f.facts.outputShape)
      ∧ output.names.Perm (f.flow.outputs.map (·.name))

/-- However a run of a registered flow ends, it was typed. -/
theorem Ends.typedRun (hr : registry.Sound) (hf : registry.flows.get? id = some f)
    {run : Report × (σ × List Call)}
    (h : Ends env.logged invoke.logged control f input (start, []) run) :
    TypedRun registry f run.1 run.2.2 := by
  have hcontext := (h.context_typed hr hf).leftBy
  cases h with
  | refused violated => exact ⟨hcontext, .nil, nofun, nofun⟩
  | @stoppedBetween index context s s₁ why moment stopped =>
      -- Nothing was called since the last moment.
      have hcalls : CallsFit registry f.flow s₁.2 :=
        calls_of_interruption? stopped ▸ (moment.calls_fit hr hf).2
      refine ⟨hcontext, hcalls, fun step index reference => ?_, nofun⟩
      cases why <;> nofun
  | @stoppedInside index context s s₁ s₂ step expected why moment quiet due stopped =>
      obtain ⟨_, _, _, hcalls⟩ := moment.step_ends hr hf quiet due stopped
      refine ⟨hcontext, hcalls, fun step index reference => ?_, nofun⟩
      cases why <;> nofun
  | @failed index context context' s s₁ s₂ step expected e moment quiet due failed =>
      -- Its bindings were read, so that an unresolved source is not what it failed with.
      obtain ⟨bound, hends, _, hcalls⟩ := moment.step_ends hr hf quiet due failed
      refine ⟨hcontext, hcalls, fun step index reference => ?_, nofun⟩
      cases hends <;> nofun
  | @projected context s s₁ output moment quiet output_eq =>
      have hcalls : CallsFit registry f.flow s₁.2 :=
        calls_of_interruption? quiet ▸ (moment.calls_fit hr hf).2
      refine ⟨hcontext, hcalls, nofun, fun output' heq => ?_⟩
      obtain ⟨read, hread, hconf, hwide, hnames⟩ := moment.projectOutputs_eq_ok hr hf
      cases heq
      cases hread.symm.trans output_eq
      exact ⟨ValueType.accepts_iff.mpr hconf, hwide, hnames⟩
  | @unprojected context s s₁ status e moment quiet output_eq =>
      -- Every output has a value.
      obtain ⟨read, hread, _⟩ := moment.projectOutputs_eq_ok hr hf
      exact nomatch hread.symm.trans output_eq

end

/-- **Typed runs.**  Whatever the invoker answers and whenever the run is stopped: at every moment
    as many steps are completed as entries stand in the context, and the context is what these
    steps leave; the calls, the report and the output of the run are typed.

    The calls are those of the same run with a list beside its state, which changes neither its
    report nor what it leaves of the surroundings. -/
theorem run_typed (limits : Limits) (ds : List Definition) {id : String} {f : AdmittedFlow}
    (hf : (Registry.ofDefinitions limits ds).flows.get? id = some f) (env : Surroundings σ)
    (invoke : Invoker σ) (control : Control) (input : Record) (s : σ) :
    (∀ index context s', Moment env invoke control f input s index context s' →
        context.length = index ∧ context.LeftBy f)
      ∧ ∃ calls, execute env.logged invoke.logged control f input (s, [])
            = ((execute env invoke control f input s).1, (execute env invoke control f input s).2,
                calls)
          ∧ TypedRun (Registry.ofDefinitions limits ds) f
              (execute env invoke control f input s).1 calls := by
  have hr := Registry.sound_ofDefinitions limits ds
  constructor
  · intro index context s' hmoment
    exact ⟨hmoment.length_context hr hf, (hmoment.typed hr hf).2.leftBy⟩
  · -- The run that keeps the list ends as every run does, and forgetting the list gives this one.
    obtain ⟨calls, hlogged⟩ := execute_logged env invoke control f input s
    have hends := execute_ends env.logged invoke.logged control f input (s, [])
    rw [hlogged] at hends
    exact ⟨calls, hlogged, hends.typedRun hr hf⟩

/-! ## A small run -/

/-- Surroundings in which the clock stands still and nobody cancels anything. -/
def Surroundings.still : Surroundings Unit where
  clock s := (0, s)
  cancelled _ _ := false
  record _ s := s

/-- The input of somebody of age. -/
def ofAge : Record := .cons "years" (.scalar (.int 18)) .nil

/-- An invoker that answers every call with whole years, also where a float is declared. -/
def wholeYears : Invoker Unit := fun _ _ _ s => (.ok (.record ofAge), s)

/-- The run is typed though its target answers an integer for a float. -/
theorem run_typed_visit :
    (Registry.ofDefinitions .default Registry.visitDefinitions).flows.get? "visit"
        = some Registry.admittedVisit
      ∧ ∃ calls, execute Surroundings.still.logged wholeYears.logged (.new ⟨0⟩)
            Registry.admittedVisit ofAge ((), [])
          = ((execute .still wholeYears (.new ⟨0⟩) Registry.admittedVisit ofAge ()).1, (), calls)
        ∧ TypedRun (Registry.ofDefinitions .default Registry.visitDefinitions)
            Registry.admittedVisit
            (execute .still wholeYears (.new ⟨0⟩) Registry.admittedVisit ofAge ()).1 calls :=
  ⟨Registry.visit_registered,
    (run_typed .default Registry.visitDefinitions Registry.visit_registered .still wholeYears
      (.new ⟨0⟩) ofAge ()).2⟩

end Verdict.Run
