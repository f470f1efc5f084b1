/-
  Coherent reports — status, outcome, completed steps and calls of a run go together.

  1. **Specification** — five `Ending`s, each with what it says of the report and of the number of
     calls (`Ending.Fits`).  `Coherent`: the context holds the results of the first steps in order,
     the calls were made for the first steps in order, at most one call is ahead of the context,
     and EXACTLY ONE ending fits.

  2. **Gates** — a gate is asked as soon as its step is completed, so it is stated for the context
     as it was then (`Context.upTo`).

  3. **Dead ends** — the loop could leave its status at `running` if the output could not be read.
     The typed context rules that out, and with it the only report without an ending.
-/
import Verdict.Proofs.Run.Typing

namespace Verdict.Run

variable {σ : Type}

/-! ## The specification -/

/-- The context as it was when only the first `k` steps were completed. -/
def Context.upTo (context : Context) (k : Nat) : Context := ⟨context.entries.take k⟩

/-- The gates of the first `k` steps held, each of the context as it was after its own step. -/
def GatesPassed (flow : Flow) (context : Context) (k : Nat) : Prop :=
  ∀ (i : Nat) (step : Step), i < k → flow.steps[i]? = some step →
    GatePasses step (context.upTo (i + 1))

/-- The errors of a step that gave no result. -/
inductive StepError (f : AdmittedFlow) (index : Nat) (step : Step) : RunError → Prop
  | failed {cause : StepFailure} (unstopped : cause.interruption? = none) :
      StepError f index step (.stepFailed step.name index cause)
  | mismatched {expected : ValueType} {found : Kind}
      (declared : f.facts.stepOutputs[index]? = some expected) :
      StepError f index step (.resultMismatch step.name index expected found)
  | timedOut {budget : UInt64} (budgeted : step.budget = some budget) :
      StepError f index step (.stepTimedOut step.name index budget)

/-- How a run can end. -/
inductive Ending where
  | refused
  | succeeded
  | gateFailed
  | stepFailed
  | interrupted

/-- What an ending says of the report of a run and of the number of its calls. -/
def Ending.Fits (f : AdmittedFlow) (input : Record) (report : Report) (calls : Nat) :
    Ending → Prop
  | refused =>
      ∃ violation, f.flow.input.check input = .error violation
        ∧ report.status = .pending
        ∧ report.outcome = .error (.invalidInput f.flow.id violation)
        ∧ report.context.length = 0 ∧ calls = 0
  | succeeded =>
      ∃ output, report.status = .succeeded ∧ report.outcome = .ok output
        ∧ report.context.length = f.flow.steps.length ∧ calls = f.flow.steps.length
        ∧ GatesPassed f.flow report.context f.flow.steps.length
  | gateFailed =>
      ∃ i step gate, f.flow.steps[i]? = some step ∧ step.gate = some gate
        ∧ report.status = .failedAtStep i step.name
        ∧ report.outcome = .error (.gateFailed step.name i gate.text step.gateMessage)
        ∧ report.context.length = i + 1 ∧ calls = i + 1
        ∧ GatesPassed f.flow report.context i
        ∧ gate.holds (FieldTest.holds report.context.lookup) = false
  | stepFailed =>
      ∃ i step e, f.flow.steps[i]? = some step ∧ StepError f i step e
        ∧ report.status = .failedAtStep i step.name ∧ report.outcome = .error e
        ∧ report.context.length = i ∧ calls = i + 1
        ∧ GatesPassed f.flow report.context i
  | interrupted =>
      ∃ why, report.status = .cancelled report.context.length
        ∧ report.outcome = .error (.ofInterruption report.context.length
            ((f.flow.steps.take report.context.length).getLast?.map (·.name)) why)
        ∧ (calls = report.context.length ∨ calls = report.context.length + 1)
        ∧ GatesPassed f.flow report.context report.context.length

/-- What holds of every report, together with the calls of the run. -/
structure Coherent (f : AdmittedFlow) (input : Record) (report : Report) (calls : List Call) :
    Prop where
  entries : report.context.entries.map (·.1)
    = (f.flow.steps.take report.context.length).map (·.name)
  targets : calls.map (·.1) = (f.flow.steps.take calls.length).map (·.target)
  length_le : report.context.length ≤ calls.length
  length_calls_le : calls.length ≤ report.context.length + 1
  not_running : ∀ index, report.status ≠ .running index
  ending : ∃! ending : Ending, ending.Fits f input report calls.length

/-! ## One ending at most -/

/-- The endings that a status leaves open; a failed step is told from a failed gate by how far the
    context reaches. -/
def Ending.ofReport (report : Report) : Ending :=
  match report.status with
  | .pending | .running _ => .refused
  | .succeeded => .succeeded
  | .failedAtStep index _ => if report.context.length = index then .stepFailed else .gateFailed
  | .cancelled _ => .interrupted

/-- At most one ending fits a report: it can be read off.  The two endings of a failed step differ
    in how many entries the context has. -/
theorem Ending.eq_ofReport {f : AdmittedFlow} {input : Record} {report : Report} {calls : Nat}
    {ending : Ending} (h : ending.Fits f input report calls) : ending = .ofReport report := by
  unfold ofReport
  cases ending with
  | refused =>
      obtain ⟨_, _, hstatus, _⟩ := h
      rw [hstatus]
  | succeeded =>
      obtain ⟨_, hstatus, _⟩ := h
      rw [hstatus]
  | gateFailed =>
      obtain ⟨i, _, _, _, _, hstatus, _, hlen, _⟩ := h
      have hne : report.context.length ≠ i := by omega
      rw [hstatus]
      exact (if_neg hne).symm
  | stepFailed =>
      obtain ⟨i, _, _, _, _, hstatus, _, hlen, _⟩ := h
      rw [hstatus]
      exact (if_pos hlen).symm
  | interrupted =>
      obtain ⟨_, hstatus, _⟩ := h
      rw [hstatus]

theorem Ending.existsUnique {f : AdmittedFlow} {input : Record} {report : Report} {calls : Nat}
    (ending : Ending) (h : ending.Fits f input report calls) :
    ∃! ending : Ending, ending.Fits f input report calls := by
  refine ⟨ending, h, fun other hother => ?_⟩
  rw [Ending.eq_ofReport h, Ending.eq_ofReport hother]

/-! ## Gates along a run -/

section

variable {registry : Registry} {id : String} {f : AdmittedFlow} {env : Surroundings σ}
  {invoke : Invoker σ} {control : Control} {input : Record} {start : σ}

/-- Completing one more step leaves the contexts of the gates in front as they were. -/
theorem Context.upTo_push {context : Context} {k : Nat} (hk : k ≤ context.length) (name : String)
    (v : Value) : (context.push name v).upTo k = context.upTo k := by
  have htake : (context.entries ++ [(name, v)]).take k = context.entries.take k :=
    List.take_append_of_le_length hk
  exact congrArg Context.mk htake

theorem Context.upTo_length (context : Context) : context.upTo context.length = context := by
  have htake : context.entries.take context.length = context.entries := List.take_length
  exact congrArg Context.mk htake

theorem GatesPassed.push {flow : Flow} {context : Context} {k : Nat}
    (h : GatesPassed flow context k) (hk : k ≤ context.length) (name : String) (v : Value) :
    GatesPassed flow (context.push name v) k := by
  intro i step hi hstep
  rw [Context.upTo_push (by omega)]
  exact h i step hi hstep

/-- **Gates**: at every moment those of all completed steps have passed, each for the context as it
    was right after its own step.  What comes later only adds entries behind (`upTo_push`). -/
theorem Moment.gatesPassed (hr : registry.Sound) (hf : registry.flows.get? id = some f)
    {index : Nat} {context : Context} {s : σ}
    (h : Moment env invoke control f input start index context s) :
    GatesPassed f.flow context index := by
  induction h with
  | start => exact fun i _ hi => absurd hi (Nat.not_lt_zero i)
  | @next index context context' _ s₁ _ step expected before _ due completed ih =>
      have hlen := before.length_context hr hf
      obtain ⟨_, _, hends⟩ := before.due_ends hr hf due completed
      cases hends with
      | @completed v _ _ passed =>
          intro i step' hi hstep'
          by_cases heq : i = index
          · -- The gate of the step that was completed just now.
            subst heq
            obtain ⟨hstep, _⟩ := List.getElem?_zip_eq_some.mp due
            obtain rfl : step = step' := Option.some.inj (hstep.symm.trans hstep')
            have hpush : (context.push step.name (expected.coerce v)).length = i + 1 := by
              rw [← hlen]
              exact List.length_append
            rw [← hpush, Context.upTo_length]
            exact passed
          · exact ih.push (by omega) _ _ i step' (by omega) hstep'

/-! ## Names along a run -/

theorem Context.Typed.map_name {produced : Produced} {context : Context}
    (h : context.Typed produced) : context.entries.map (·.1) = produced.map (·.1) := by
  obtain ⟨entries⟩ := context
  change List.Forall₂ EntryFits produced entries at h
  show entries.map (·.1) = produced.map (·.1)
  induction h with
  | nil => rfl
  | cons hfits _ ih => rw [List.map_cons, List.map_cons, hfits.1, ih]

/-- The entries of a typed context stand under the names of the first steps. -/
theorem Context.Typed.names (hr : registry.Sound) (hf : registry.flows.get? id = some f)
    {k : Nat} {context : Context} (h : context.Typed ((f.flow.produced f.facts).take k)) :
    context.entries.map (·.1) = (f.flow.steps.take context.length).map (·.name) := by
  have hnames : (f.flow.produced f.facts).map (·.1) = f.flow.steps.map (·.name) := by
    apply List.map_fst_zip
    exact Nat.le_of_eq (by rw [List.length_map, (hr.admitted hf).length_stepOutputs])
  have hlen : context.length = min k (f.flow.produced f.facts).length := by
    rw [← h.length_eq, List.length_take]
  have hmap := h.map_name
  rw [List.map_take, hnames] at hmap
  rw [hmap, List.map_take, hlen, ← List.length_map (f := (·.1)), hnames]
  rcases Nat.le_total k (f.flow.steps.map (·.name)).length with hle | hle
  · rw [Nat.min_eq_left hle]
  · rw [Nat.min_eq_right hle, List.take_of_length_le hle, List.take_length]

/-- The name of the last entry is that of the last completed step. -/
theorem Context.last?_of_names {context : Context} {steps : List Step}
    (h : context.entries.map (·.1) = steps.map (·.name)) :
    context.last? = steps.getLast?.map (·.name) := by
  rw [Context.last?, ← List.getLast?_map, h, List.getLast?_map]

/-- The calls go to the targets of the first steps, one after the other. -/
theorem CallsFit.targets {flow : Flow} {calls : List Call} (h : CallsFit registry flow calls) :
    calls.map (·.1) = (flow.steps.take calls.length).map (·.target) := by
  apply List.ext_getElem?
  intro j
  rw [List.getElem?_map, List.getElem?_map, List.getElem?_take]
  cases hj : calls[j]? with
  | none =>
      have hout : ¬ j < calls.length := fun hlt => by
        rw [List.getElem?_eq_getElem hlt] at hj
        exact nomatch hj
      rw [if_neg hout]
      rfl
  | some call =>
      obtain ⟨step, _, hstep, htarget, _⟩ := h j call.1 call.2 hj
      have hin : j < calls.length := (List.getElem?_eq_some_iff.mp hj).1
      rw [if_pos hin, hstep, Option.map_some, Option.map_some, htarget]

/-! ## Every ending -/

section

variable {k : Nat} {context : Context} {calls : List Call}
  (hr : registry.Sound) (hf : registry.flows.get? id = some f)
  (hctx : context.Typed ((f.flow.produced f.facts).take k)) (hk : context.length = k)
  (hfit : CallsFit registry f.flow calls)
include hr hf hctx hk hfit

/-- A report is coherent if its context is typed, its calls fit, and one ending fits it. -/
theorem Coherent.of_ending {status : Status} {outcome : Except RunError Record}
    (hle : k ≤ calls.length) (hle' : calls.length ≤ k + 1)
    (not_running : ∀ index, status ≠ .running index) (ending : Ending)
    (h : ending.Fits f input ⟨status, context, outcome⟩ calls.length) :
    Coherent f input ⟨status, context, outcome⟩ calls := by
  subst hk
  exact
    { entries := hctx.names hr hf
      targets := hfit.targets
      length_le := hle
      length_calls_le := hle'
      not_running := not_running
      ending := ending.existsUnique h }

/-- A run that was stopped, between two steps or inside a call. -/
theorem Coherent.interrupted (hm : calls.length = k ∨ calls.length = k + 1)
    (hgates : GatesPassed f.flow context k) (why : Interruption) :
    Coherent f input
      ⟨.cancelled context.length, context,
        .error (.ofInterruption context.length context.last? why)⟩ calls := by
  have hlast := Context.last?_of_names (hctx.names hr hf)
  rw [hlast]
  refine .of_ending hr hf hctx hk hfit (by omega) (by omega) nofun .interrupted
    ⟨why, rfl, rfl, ?_, ?_⟩
  · show calls.length = context.length ∨ calls.length = context.length + 1
    omega
  · show GatesPassed f.flow context context.length
    rw [hk]
    exact hgates

/-- A run whose step gave no result. -/
theorem Coherent.stepFailed {step : Step} {e : RunError} (hstep : f.flow.steps[k]? = some step)
    (hm : calls.length = k + 1) (hgates : GatesPassed f.flow context k)
    (herror : StepError f k step e) :
    Coherent f input ⟨.failedAtStep k step.name, context, .error e⟩ calls :=
  .of_ending hr hf hctx hk hfit (by omega) (by omega) nofun .stepFailed
    ⟨k, step, e, hstep, herror, rfl, rfl, hk, hm, hgates⟩

/-- A run whose outputs were read. -/
theorem Coherent.succeeded {output : Record} (hall : k = f.flow.steps.length)
    (hm : calls.length = k) (hgates : GatesPassed f.flow context k) :
    Coherent f input ⟨.succeeded, context, .ok output⟩ calls := by
  subst hall
  exact .of_ending hr hf hctx hk hfit (by omega) (by omega) nofun .succeeded
    ⟨output, rfl, rfl, hk, hm, hgates⟩

end

/-- **However a run of a registered flow ends**, its report is coherent.

    At a moment there are as many calls as entries; whether there is one call more at the end
    depends on whether the run has ended between two steps or inside one. -/
theorem Ends.coherent (hr : registry.Sound) (hf : registry.flows.get? id = some f)
    {run : Report × (σ × List Call)}
    (h : Ends env.logged invoke.logged control f input (start, []) run) :
    Coherent f input run.1 run.2.2 := by
  cases h with
  | @refused violation violated =>
      exact .of_ending hr hf (k := 0) .empty rfl .nil (Nat.le_refl _) (Nat.zero_le _) nofun
        .refused ⟨violation, violated, rfl, rfl, rfl, rfl⟩
  | @stoppedBetween index context s s₁ why moment stopped =>
      -- Between two steps every call has been answered.
      obtain ⟨_, hctx⟩ := moment.typed hr hf
      obtain ⟨hlen, hfit⟩ := moment.calls_fit hr hf
      rw [← calls_of_interruption? stopped] at hlen hfit
      exact .interrupted hr hf hctx (moment.length_context hr hf) hfit (Or.inl hlen)
        (moment.gatesPassed hr hf) why
  | @stoppedInside index context s s₁ s₂ step expected why moment quiet due stopped =>
      obtain ⟨_, hctx⟩ := moment.typed hr hf
      obtain ⟨bound, _, hcalls, hfit⟩ := moment.step_ends hr hf quiet due stopped
      -- The last call is that of the step which was stopped; it has no entry.
      have hm : s₂.2.length = index + 1 := by
        rw [hcalls, List.length_append, (moment.calls_fit hr hf).1, List.length_singleton]
      exact .interrupted hr hf hctx (moment.length_context hr hf) hfit (Or.inr hm)
        (moment.gatesPassed hr hf) why
  | @failed index context context' s s₁ s₂ step expected e moment quiet due failed =>
      -- Its call was made, whatever it has failed with.
      obtain ⟨_, hctx⟩ := moment.typed hr hf
      have hk := moment.length_context hr hf
      have hgates := moment.gatesPassed hr hf
      obtain ⟨bound, hends, hcalls, hfit⟩ := moment.step_ends hr hf quiet due failed
      have hm : s₂.2.length = index + 1 := by
        rw [hcalls, List.length_append, (moment.calls_fit hr hf).1, List.length_singleton]
      obtain ⟨hstep, hdeclared⟩ := List.getElem?_zip_eq_some.mp due
      cases hends with
      | mismatched _ _ =>
          exact .stepFailed hr hf hctx hk hfit hstep hm hgates (.mismatched hdeclared)
      | timedOut budgeted =>
          exact .stepFailed hr hf hctx hk hfit hstep hm hgates (.timedOut budgeted)
      | stepFailed answered =>
          cases answered with
          | failed _ unstopped =>
              exact .stepFailed hr hf hctx hk hfit hstep hm hgates (.failed unstopped)
      | @gateFailed v gate _ accepted gated refused =>
          -- The one failure that leaves its step completed.
          have hctx' := hctx.push_due hr hf due accepted
          have hk' : (context.push step.name (expected.coerce v)).length = index + 1 := by
            rw [Context.length_push, hk]
          have hgates' := hgates.push (Nat.le_of_eq hk.symm) step.name (expected.coerce v)
          exact .of_ending hr hf hctx' hk' hfit (Nat.le_of_eq hm.symm) (by omega) nofun .gateFailed
            ⟨index, step, gate, hstep, gated, rfl, rfl, hk', hm, hgates', refused⟩
  | @projected context s s₁ output moment quiet output_eq =>
      obtain ⟨_, hctx⟩ := moment.typed hr hf
      obtain ⟨hlen, hfit⟩ := moment.calls_fit hr hf
      rw [← calls_of_interruption? quiet] at hlen hfit
      exact .succeeded hr hf hctx (moment.length_context hr hf) hfit (length_typedSteps hr hf) hlen
        (moment.gatesPassed hr hf)
  | @unprojected context s s₁ status e moment quiet output_eq =>
      -- The dead end: it would leave the status at `running`.
      obtain ⟨read, hread, _⟩ := moment.projectOutputs_eq_ok hr hf
      exact nomatch hread.symm.trans output_eq

end

/-- **Coherent reports.**  Whatever the invoker answers and whenever the run is stopped, the report
    of a run of a registered flow is coherent with the calls that the run has made: its status, its
    outcome, its context and the number of its calls are those of exactly one ending. -/
theorem run_coherent (limits : Limits) (ds : List Definition) {id : String} {f : AdmittedFlow}
    (hf : (Registry.ofDefinitions limits ds).flows.get? id = some f) (env : Surroundings σ)
    (invoke : Invoker σ) (control : Control) (input : Record) (s : σ) :
    ∃ calls, execute env.logged invoke.logged control f input (s, [])
          = ((execute env invoke control f input s).1, (execute env invoke control f input s).2,
              calls)
        ∧ Coherent f input (execute env invoke control f input s).1 calls := by
  have hr := Registry.sound_ofDefinitions limits ds
  obtain ⟨calls, hlogged⟩ := execute_logged env invoke control f input s
  have hends := execute_ends env.logged invoke.logged control f input (s, [])
  rw [hlogged] at hends
  exact ⟨calls, hlogged, hends.coherent hr hf⟩

/-- The run through a target that answers an integer for a float, and its one call. -/
theorem run_coherent_visit :
    (Registry.ofDefinitions .default Registry.visitDefinitions).flows.get? "visit"
        = some Registry.admittedVisit
      ∧ ∃ calls, execute Surroundings.still.logged wholeYears.logged (.new ⟨0⟩)
            Registry.admittedVisit ofAge ((), [])
          = ((execute .still wholeYears (.new ⟨0⟩) Registry.admittedVisit ofAge ()).1, (), calls)
        ∧ Coherent Registry.admittedVisit ofAge
            (execute .still wholeYears (.new ⟨0⟩) Registry.admittedVisit ofAge ()).1 calls :=
  ⟨Registry.visit_registered,
    run_coherent .default Registry.visitDefinitions Registry.visit_registered .still wholeYears
      (.new ⟨0⟩) ofAge ()⟩

end Verdict.Run
