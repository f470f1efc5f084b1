/-
  Gates of a run — none of them fails because of a field that is not there.

  1. **Events** — `ownEvents` is what a run has recorded itself when it stands with a context: step
     by step that the step has entered it, and what its gate has then said.  The invoker is any,
     and what it records inside its calls is left out (`Invoker.unrecorded`).

  2. **Types** — a gate was checked for the steps in front of it and its own one, and the context
     as the gate sees it is typed by exactly these (`Context.Typed.upTo`).  So all its tests are
     decided (`Context.Typed.gate_decided`).

  3. **Theorem** — `no_test_fails_closed`: in admitted tables and in registered flows every test of
     every condition decides on a value that it has found, also under a NOT, where a test that
     fails closed would let everything pass.
-/
import Verdict.Proofs.FieldTest
import Verdict.Proofs.Run.Accounts

namespace Verdict.Run

variable {σ : Type}

/-! ## What a run records itself -/

/-- The invoker beside a list of events, which it leaves alone. -/
def Invoker.unrecorded (invoke : Invoker σ) : Invoker (σ × List Event) :=
  fun target input control s =>
    ((invoke target input control s.1).1, (invoke target input control s.1).2, s.2)

theorem Invoker.unrecorded_over (invoke : Invoker σ) : invoke.unrecorded.Over invoke Prod.fst :=
  fun _ _ _ _ => rfl

/-- The events of the steps whose results stand in a context. -/
def ownEvents (flow : Flow) (context : Context) : List Event :=
  (flow.steps.take context.length).zipIdx.flatMap fun (step, index) =>
    stepEvents flow.id context index step

/-- **One more result** adds the events of its step, behind all others. -/
theorem ownEvents_push {flow : Flow} {context : Context} {step : Step}
    (hstep : flow.steps[context.length]? = some step) (v : Value) :
    ownEvents flow (context.push step.name v)
      = ownEvents flow context ++ (.stepCompleted flow.id step.name context.length
          :: gateEvents flow.id (context.push step.name v) context.length step) := by
  have hlen : (flow.steps.take context.length).length = context.length :=
    List.length_take_of_le (Nat.le_of_lt (List.getElem?_eq_some_iff.mp hstep).1)
  rw [← stepEvents_length_push, ownEvents, Context.length_push, List.take_add_one, hstep,
    Option.toList_some, List.zipIdx_append, List.flatMap_append, Nat.zero_add, hlen,
    List.zipIdx_singleton, List.flatMap_singleton]
  -- The gates in front have seen the context without the new result.
  refine congrArg (· ++ _) (List.flatMap_congr fun entry hentry => ?_)
  have hindex := List.snd_lt_of_mem_zipIdx hentry
  exact stepEvents_push (by omega) ..

example :
    ownEvents Registry.gateFlow (Context.empty.push "adult" (.scalar (.bool false)))
      = [.stepCompleted "gate" "adult" 0, .gateEvaluated "gate" "adult" 0 "adult" false] := by
  rfl

section

variable {env : Surroundings σ} {invoke : Invoker σ} {control : Control}

theorem Passes.events_eq {s s' : σ × List Event} (h : Passes env.recording s s') : s'.2 = s.2 :=
  h.view_eq Prod.snd fun _ => rfl

theorem events_of_interruption? {s s₁ : σ × List Event} {why : Option Interruption}
    (h : interruption? env.recording control s = (why, s₁)) : s₁.2 = s.2 :=
  (Passes.of_interruption? h).events_eq

theorem events_of_call (env : Surroundings σ) (invoke : Invoker σ) (control : Control)
    (step : Step) (bound : Record) (s : σ × List Event) :
    (call env.recording invoke.unrecorded control step bound s).2.2 = s.2 := by
  obtain ⟨handed, s₁, _, hbefore, hafter⟩ :=
    call_passes env.recording invoke.unrecorded control step bound s
  rw [hafter.events_eq, ← hbefore.events_eq]
  rfl

/-- **One step** records its own events, if there are any: it stores a result and asks its gate, or
    it leaves the context and the events as they were. -/
theorem runStep_own {flow : Flow} {step : Step} {context : Context} {input bound : Record}
    {expected : ValueType} {ending : StepEnd} {s s' : σ × List Event}
    (hstep : flow.steps[context.length]? = some step)
    (hbound : bindInputs step context.length input context = .ok bound)
    (h : runStep env.recording invoke.unrecorded control flow.id input context.length step expected
      context s = (ending, s')) (hown : s.2 = ownEvents flow context) :
    s'.2 = ownEvents flow (ending.contextAfter context) := by
  rcases runStep_stores hbound h with ⟨hcontext, rfl⟩ | ⟨v, _, hcontext, rfl⟩
  · -- Nothing is stored, and nothing recorded behind the call.
    rw [events_of_call, hown, hcontext]
  · -- The result is stored: the invoker is unrecorded, so the step's own events come next.
    rw [Surroundings.recordAll_recording, events_of_call, hown, hcontext, ownEvents_push hstep]

end

/-! ## Typed gates -/

namespace Context.Typed

variable {produced : Produced} {context : Context}

/-- What a typed context holds at a path conforms to the type that its steps have there. -/
theorem lookup (h : context.Typed produced) {p : FieldPath} {t : ValueType}
    (ht : produced.lookup p = some t) : ∃ v, context.lookup p = some v ∧ Conforms t v := by
  obtain ⟨u, hu, hpath⟩ := Option.bind_eq_some_iff.mp ht
  obtain ⟨w, hw, hconf⟩ := h.get? hu
  obtain ⟨v, hv, hfound⟩ := hconf.at? hpath
  exact ⟨v, Option.bind_eq_some_iff.mpr ⟨w, hw, hv⟩, hfound⟩

/-- The context was typed when it was shorter. -/
theorem upTo {n k : Nat} (h : context.Typed (produced.take n)) (hk : k ≤ n) :
    (context.upTo k).Typed (produced.take k) := by
  have hfront := List.forall₂_take k h
  rw [List.take_take, Nat.min_eq_left hk] at hfront
  exact hfront

end Context.Typed

section

variable {registry : Registry} {id : String} {f : AdmittedFlow}

/-- **A gate is decided** on the context as it was when its step was completed.

    It was checked against the types of the steps in front and of its own step, and these are the
    types of the context up to it, which may have grown since. -/
theorem Context.Typed.gate_decided (hr : registry.Sound) (hf : registry.flows.get? id = some f)
    {context : Context} (hctx : context.Typed ((f.flow.produced f.facts).take context.length))
    {index : Nat} {step : Step} {gate : FieldCondition} (hindex : index < context.length)
    (hstep : f.flow.steps[index]? = some step) (hgate : step.gate = some gate) :
    gate.Decided (context.upTo (index + 1)).lookup := by
  obtain ⟨target, _, _, hadmitted, hproduced⟩ := (hr.admitted hf).step index step hstep
  have hsees : (f.flow.produced f.facts).take index ++ [(step.name, target.output)]
      = (f.flow.produced f.facts).take (index + 1) := by
    rw [List.take_add_one, hproduced, Option.toList_some]
  have hchecked := hadmitted.gate gate hgate
  rw [hsees] at hchecked
  have htyped := hctx.upTo hindex
  exact FieldCondition.decided_of_checkTests (Flow.checks_of_checkGate hchecked).2
    fun _ _ ht => htyped.lookup ht

/-! ## Runs -/

variable {env : Surroundings σ} {invoke : Invoker σ} {control : Control} {input : Record}
  {start : σ}

/-- The step that is due at a moment leaves behind what the run has recorded itself. -/
theorem Moment.step_own (hr : registry.Sound) (hf : registry.flows.get? id = some f)
    {index : Nat} {context : Context} {step : Step} {expected : ValueType} {ending : StepEnd}
    {s s₁ s₂ : σ × List Event}
    (h : Moment env.recording invoke.unrecorded control f input (start, []) index context s)
    (hown : s.2 = ownEvents f.flow context)
    (hquiet : interruption? env.recording control s = (none, s₁))
    (hdue : (typedSteps f)[index]? = some (step, expected))
    (hran : runStep env.recording invoke.unrecorded control f.flow.id input index step expected
      context s₁ = (ending, s₂)) :
    s₂.2 = ownEvents f.flow (ending.contextAfter context) := by
  obtain ⟨_, hbound, _⟩ := h.due_ends hr hf hdue hran
  obtain rfl := h.length_eq
  have hstep := (List.getElem?_zip_eq_some.mp hdue).1
  exact runStep_own hstep hbound hran ((events_of_interruption? hquiet).trans hown)

/-- **The invariant**: at every moment a run has recorded the events of its completed steps. -/
theorem Moment.own (hr : registry.Sound) (hf : registry.flows.get? id = some f) {index : Nat}
    {context : Context} {s : σ × List Event}
    (h : Moment env.recording invoke.unrecorded control f input (start, []) index context s) :
    s.2 = ownEvents f.flow context := by
  induction h with
  | start conforming => rfl
  | next before quiet due completed ih => exact before.step_own hr hf ih quiet due completed

/-- What holds of a run that has ended with a report and has recorded some events itself. -/
structure GatedRun (f : AdmittedFlow) (report : Report) (events : List Event) : Prop where
  /-- For each completed step its completion, and what its gate has said of the context as it was
      then; and at last the end of the run. -/
  events : events = ownEvents f.flow report.context
    ++ [.ofOutcome f.flow.id report.context.length report.outcome]
  /-- These gates were decided, each on the same context, with all their tests. -/
  decided : ∀ (i : Nat) (step : Step) (gate : FieldCondition), i < report.context.length →
    f.flow.steps[i]? = some step → step.gate = some gate →
      gate.Decided (report.context.upTo (i + 1)).lookup

/-- **However a run of a registered flow ends**, its gates were decided: those of all steps that
    stand in the context, the one included that has stopped the run. -/
theorem Ends.gatedRun (hr : registry.Sound) (hf : registry.flows.get? id = some f)
    {run : Report × (σ × List Event)}
    (h : Ends env.recording invoke.unrecorded control f input (start, []) run) :
    GatedRun f run.1 run.2.2 := by
  have hctx := h.context_typed hr hf
  refine ⟨?_, fun _ _ _ hindex hstep hgate => hctx.gate_decided hr hf hindex hstep hgate⟩
  -- The end is recorded behind what the run has recorded up to there.
  cases h with
  | refused violated => rfl
  | stoppedBetween moment stopped =>
      exact congrArg (· ++ _) ((events_of_interruption? stopped).trans (moment.own hr hf))
  | stoppedInside moment quiet due stopped =>
      exact congrArg (· ++ _) (moment.step_own hr hf (moment.own hr hf) quiet due stopped)
  | failed moment quiet due failed =>
      exact congrArg (· ++ _) (moment.step_own hr hf (moment.own hr hf) quiet due failed)
  | projected moment quiet output_eq =>
      exact congrArg (· ++ _) ((events_of_interruption? quiet).trans (moment.own hr hf))
  | unprojected moment quiet output_eq =>
      exact congrArg (· ++ _) ((events_of_interruption? quiet).trans (moment.own hr hf))

end

/-- **No test fails closed.**  In every rule of an admitted table every test decides on what an
    accepted record holds; and in a run of a registered flow, through any invoker and however it
    ends, so does every test of every gate that is asked, on what the context holds at this time.
    The second part is about ALL that the run records itself.

    A test that decides has found a value which is comparable with its bound, so it says what the
    comparison says; nowhere does an absent field or an order that does not exist stand in. -/
theorem no_test_fails_closed :
    (∀ (t : Table) (limits : Limits) (r : Record), t.check limits = .ok () →
        t.input.check r = .ok () → ∀ rule ∈ t.rules, rule.condition.Decided r.lookup)
      ∧ ∀ (limits : Limits) (ds : List Definition) (id : String) (f : AdmittedFlow),
        (Registry.ofDefinitions limits ds).flows.get? id = some f →
        ∀ (σ : Type) (env : Surroundings σ) (invoke : Invoker σ) (control : Control)
          (input : Record) (s : σ),
          ∃ events, execute env.recording invoke.unrecorded control f input (s, [])
              = ((execute env invoke control f input s).1,
                  (execute env invoke control f input s).2, events)
            ∧ GatedRun f (execute env invoke control f input s).1 events := by
  refine ⟨fun t limits r admitted hin rule hrule => t.decided_of_check admitted hin hrule, ?_⟩
  intro limits ds id f hf σ env invoke control input s
  have hr := Registry.sound_ofDefinitions limits ds
  have hover : execute env invoke control f input s
      = forgetting Prod.fst (execute env.recording invoke.unrecorded control f input (s, [])) :=
    execute_over env.recording_over invoke.unrecorded_over control f input (s, [])
  have hends := execute_ends env.recording invoke.unrecorded control f input (s, [])
  rw [hover]
  exact ⟨_, rfl, hends.gatedRun hr hf⟩

/-! ## A small run -/

/-- What the admission of the flow with a gate finds out. -/
def admittedGate : AdmittedFlow where
  flow := Registry.gateFlow
  facts :=
    { outputShape := .cons "years" .float .nil
      nestingDepth := 1
      stepOutputs := [.bool] }

theorem gate_registered :
    (Registry.ofDefinitions .default Registry.visitDefinitions).flows.get? "gate"
      = some admittedGate := rfl

/-- An invoker that answers every call with `true`. -/
def consenting : Invoker Unit := fun _ _ _ s => (.ok (.scalar (.bool true)), s)

/-- The comparison of the table is decided on the years, and the gate on what is answered. -/
theorem no_test_fails_closed_gate :
    Registry.ageTable.check .default = .ok () ∧ Registry.ageTable.input.check ofAge = .ok ()
      ∧ (∀ rule ∈ Registry.ageTable.rules, rule.condition.Decided ofAge.lookup)
      ∧ (Registry.ofDefinitions .default Registry.visitDefinitions).flows.get? "gate"
        = some admittedGate
      ∧ ∃ events, execute Surroundings.still.recording consenting.unrecorded (.new ⟨0⟩)
            admittedGate ofAge ((), [])
          = ((execute .still consenting (.new ⟨0⟩) admittedGate ofAge ()).1, (), events)
        ∧ GatedRun admittedGate (execute .still consenting (.new ⟨0⟩) admittedGate ofAge ()).1
          events :=
  ⟨rfl, rfl, no_test_fails_closed.1 Registry.ageTable .default ofAge rfl rfl, gate_registered,
    no_test_fails_closed.2 .default Registry.visitDefinitions "gate" admittedGate gate_registered
      Unit .still consenting (.new ⟨0⟩) ofAge ()⟩

end Verdict.Run
