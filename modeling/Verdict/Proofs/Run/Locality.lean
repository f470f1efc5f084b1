/-
  Locality — a run looks at what its flow names, and at nothing else of the registry.

  1. **Invokers** — of its invoker a run sees the targets of its own steps (`execute_congr`).

  2. **Registries** — so a run over a sound registry sees what its flow reaches by calls, and all of
     that is registered.  Over a registry that has it too, under the same names, every target
     answers the same on every level (`invoker_within`), and every run is the same
     (`run_within`).

  3. **Theorem** — `run_of_additions`: further submissions change no evaluation of a registered
     table and no run of a registered flow, neither its report nor its events.
-/
import Verdict.Proofs.Registry.Closure
import Verdict.Proofs.Registry.Growth
import Verdict.Proofs.Run.Log

namespace Verdict.Run

variable {σ : Type}

/-! ## The invoker of a run -/

section

variable {invoke invoke' : Invoker σ} (env : Surroundings σ) (control : Control)

theorem call_congr {step : Step} (h : invoke step.target = invoke' step.target) (input : Record)
    (s : σ) : call env invoke control step input s = call env invoke' control step input s := by
  rw [call, call, h]

theorem runStep_congr {step : Step} (h : invoke step.target = invoke' step.target)
    (flow : String) (input : Record) (index : Nat) (expected : ValueType) (context : Context)
    (s : σ) :
    runStep env invoke control flow input index step expected context s
      = runStep env invoke' control flow input index step expected context s := by
  rw [runStep, runStep]
  simp only [call_congr env control h]

theorem runSteps_congr {steps : List (Step × ValueType)}
    (h : ∀ p ∈ steps, invoke p.1.target = invoke' p.1.target) (flow : Flow) (input : Record)
    (status : Status) (index : Nat) (context : Context) (s : σ) :
    runSteps env invoke control flow input status index context steps s
      = runSteps env invoke' control flow input status index context steps s := by
  induction steps generalizing status index context s with
  | nil => rw [runSteps, runSteps]
  | cons first steps ih =>
      obtain ⟨step, expected⟩ := first
      obtain ⟨hfirst, hrest⟩ := List.forall_mem_cons.mp h
      rw [runSteps, runSteps]
      simp only [runStep_congr env control hfirst, ih hrest]

/-- **A run calls the targets of its steps**, and asks its invoker for nothing else: two invokers
    that agree on these targets give the same run, whatever else they would answer. -/
theorem execute_congr {f : AdmittedFlow}
    (h : ∀ step ∈ f.flow.steps, invoke step.target = invoke' step.target) (input : Record) (s : σ) :
    execute env invoke control f input s = execute env invoke' control f input s := by
  have hsteps : ∀ p ∈ f.flow.steps.zip f.facts.stepOutputs,
      invoke p.1.target = invoke' p.1.target :=
    fun p hp => h p.1 (List.of_mem_zip hp).1
  rw [execute, execute]
  simp only [runSteps_congr env control hsteps]

end

/-! ## The registry of a run -/

section

variable {r r' : Registry} (hwithin : r.Within r') (env : Surroundings σ)
include hwithin

theorem evaluate_within {table : String} {t : Table} (ht : r.tables.get? table = some t)
    (input : Record) (s : σ) : evaluate env r' table input s = evaluate env r table input s := by
  rw [evaluate, evaluate, ht, hwithin.tables table t ht]

theorem nestingDepth_within {flow : String} {f : AdmittedFlow}
    (hf : r.flows.get? flow = some f) : nestingDepth r' flow = nestingDepth r flow := by
  rw [nestingDepth, nestingDepth, hf, hwithin.flows flow f hf]

/-- A registered flow runs the same, if the targets of its steps answer the same. -/
theorem runWith_within {flow : String} {f : AdmittedFlow} (hf : r.flows.get? flow = some f)
    {invoke invoke' : Invoker σ}
    (h : ∀ step ∈ f.flow.steps, invoke' step.target = invoke step.target) (input : Record)
    (control : Control) (s : σ) :
    runWith env r' invoke' flow input control s = runWith env r invoke flow input control s := by
  rw [runWith, runWith, hf, hwithin.flows flow f hf]
  exact execute_congr env control h input s

variable (hr : r.Sound)
include hr

/-- **Registered targets answer the same** in every registry that has them too, on every level.  A
    table is found there unchanged; a flow runs with targets of its own, and they are registered as
    well. -/
theorem invoker_within (levels : Nat) {target : Target} {signature : Signature}
    (hs : r.signature? target = some signature) :
    invoker env r' levels target = invoker env r levels target := by
  funext input control s
  induction levels, target using levels_induction generalizing signature input control s with
  | table levels table =>
      obtain ⟨t, ht, _⟩ := Option.map_eq_some_iff.mp hs
      rw [invoker, invoker, evaluate_within hwithin env ht]
  | spent flow => rfl
  | flow levels flow ih =>
      -- The targets of the flow are registered, since the registry is closed.
      obtain ⟨f, hf, _⟩ := Option.map_eq_some_iff.mp hs
      have htargets : ∀ step ∈ f.flow.steps,
          invoker env r' levels step.target = invoker env r levels step.target := by
        intro step hstep
        obtain ⟨inner, hinner, _⟩ := hr.registered hf hstep
        funext record narrowed s'
        exact ih step.target hinner record narrowed s'
      rw [invoker, invoker, runWith_within hwithin env hf htargets]

/-- **A registered flow runs the same** in every registry that has it too. -/
theorem run_within {flow : String} {f : AdmittedFlow} (hf : r.flows.get? flow = some f)
    (input : Record) (control : Control) (s : σ) :
    run env r' flow input control s = run env r flow input control s := by
  rw [run, run, nestingDepth_within hwithin hf]
  refine runWith_within hwithin env hf (fun step hstep => ?_) input control s
  obtain ⟨inner, hinner, _⟩ := hr.registered hf hstep
  exact invoker_within hwithin env hr _ hinner

end

/-- **Additions change nothing.**  Whatever is submitted to a registry, a table that was registered
    before answers what it has answered, and a flow that was registered before runs as it has run,
    under the same clock and the same flags: with the same report, and with the same events.

    The events are part of what the run leaves of surroundings that keep them, so both follow from
    one fact about runs in any surroundings (`run_within`). -/
theorem run_of_additions (limits : Limits) (ds more : List Definition) (env : Surroundings σ) :
    (∀ table t, (Registry.ofDefinitions limits ds).tables.get? table = some t →
        ∀ (input : Record) (s : σ),
          evaluate env (.ofDefinitions limits (ds ++ more)) table input s
            = evaluate env (.ofDefinitions limits ds) table input s)
      ∧ ∀ flow f, (Registry.ofDefinitions limits ds).flows.get? flow = some f →
        ∀ (input : Record) (control : Control) (s : σ),
          run env (.ofDefinitions limits (ds ++ more)) flow input control s
              = run env (.ofDefinitions limits ds) flow input control s
            ∧ eventsOf env (.ofDefinitions limits (ds ++ more)) flow input control s
              = eventsOf env (.ofDefinitions limits ds) flow input control s := by
  have hwithin := Registry.within_ofDefinitions limits ds more
  have hr := Registry.sound_ofDefinitions limits ds
  constructor
  · intro table t ht input s
    exact evaluate_within hwithin env ht input s
  · -- Once as it is, and once in surroundings that keep the events.
    intro flow f hf input control s
    have hevents := run_within hwithin env.recording hr hf input control (s, [])
    exact ⟨run_within hwithin env hr hf input control s, congrArg (·.2.2) hevents⟩

/-- The visit, with a table of the same name as its flow added, and a second gate that is refused.
    -/
theorem run_of_additions_visit :
    (Registry.ofDefinitions .default Registry.visitDefinitions).flows.get? "visit"
        = some Registry.admittedVisit
      ∧ run .still (.ofDefinitions .default (Registry.visitDefinitions
            ++ [.table { Registry.ageTable with id := "visit" }, .flow Registry.gateFlow]))
          "visit" ofAge (.new ⟨0⟩) ()
        = run .still (.ofDefinitions .default Registry.visitDefinitions) "visit" ofAge (.new ⟨0⟩)
            () :=
  ⟨Registry.visit_registered,
    ((run_of_additions .default Registry.visitDefinitions _ .still).2 "visit" _
      Registry.visit_registered ofAge (.new ⟨0⟩) ()).1⟩

end Verdict.Run
