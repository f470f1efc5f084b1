/-
  Nested runs — how deep they stand one inside the other, and that they come to an end.

  1. **Specification** — `Runs height`: the run of a flow as it is meant, with NO number that counts
     levels down.  The targets of its steps are called, and those that are flows are run in the same
     way; at most `height` runs of registered flows stand one inside the other.  So every run goes
     down a bounded number of times, and comes to its end.

  2. **One result** — a run has at most one result, whatever height it is looked at with
     (`Runs.unique`).

  3. **Levels** — a flow gets as many levels as its nesting depth says.  Its targets are nested less
     deep, so the levels last on the whole way down (`runs_of_nestingDepth_le`), and the number
     leaves no trace in the result.

  4. **Theorem** — `run_grounded` puts together what the registry is like after any history and what
     follows for the runs over it.
-/
import Verdict.Proofs.Registry.Closure
import Verdict.Proofs.Registry.Growth
import Verdict.Proofs.Run.Locality

namespace Verdict.Run

variable {σ : Type}

/-! ## The specification -/

/-- Calls registered tables, and runs flows as `nested` does. -/
def calling (env : Surroundings σ) (registry : Registry)
    (nested : String → Record → Control → σ → Report × σ) : Invoker σ
  | .table table, input, _, s =>
      match evaluate env registry table input s with
      | (.ok answer, s) => (.ok answer.value, s)
      | (.error e, s) => (.error (.evaluation e), s)
  | .flow flow, input, control, s =>
      match nested flow input control s with
      | (⟨_, _, .ok output⟩, s) => (.ok (.record output), s)
      | (⟨_, _, .error e⟩, s) => (.error (.run e), s)

/-- A run comes to a result, with at most `height` runs of registered flows one inside the other. -/
inductive Runs (env : Surroundings σ) (registry : Registry) :
    (height : Nat) → (flow : String) → Record → Control → σ → Report × σ → Prop
  /-- An unknown flow is refused, and nothing is run for it. -/
  | unknown {height : Nat} {flow : String} {input : Record} {control : Control} {s : σ}
      (absent : registry.flows.get? flow = none) :
      Runs env registry height flow input control s
        (finish env flow .pending .empty (.error (.unknownFlow flow)) s)
  /-- A registered flow is executed; whatever its steps hand to flows is run inside. -/
  | known {height : Nat} {flow : String} {f : AdmittedFlow} {input : Record} {control : Control}
      {s : σ} {nested : String → Record → Control → σ → Report × σ}
      (found : registry.flows.get? flow = some f)
      (inside : ∀ step ∈ f.flow.steps, ∀ inner, step.target = .flow inner →
        ∀ record narrowed s', Runs env registry height inner record narrowed s'
          (nested inner record narrowed s')) :
      Runs env registry (height + 1) flow input control s
        (execute env (calling env registry nested) control f input s)

section

variable {env : Surroundings σ} {registry : Registry}

/-! ## One result -/

/-- Who is called for the steps of a flow decides how a flow is run, and nothing else does. -/
theorem execute_calling_congr {f : AdmittedFlow}
    {nested nested' : String → Record → Control → σ → Report × σ}
    (h : ∀ step ∈ f.flow.steps, ∀ inner, step.target = .flow inner → nested inner = nested' inner)
    (control : Control) (input : Record) (s : σ) :
    execute env (calling env registry nested) control f input s
      = execute env (calling env registry nested') control f input s := by
  refine execute_congr env control (fun step hstep => ?_) input s
  funext record narrowed s'
  cases htarget : step.target with
  | table table => rfl
  | flow inner => rw [calling, calling, h step hstep inner htarget]

/-- **At most one result**: the height does not matter for it.  The induction is on the first run;
    the runs inside it have one result each, so both runs go on with the same invoker. -/
theorem Runs.unique {height height' : Nat} {flow : String} {input : Record} {control : Control}
    {s : σ} {result result' : Report × σ} (h : Runs env registry height flow input control s result)
    (h' : Runs env registry height' flow input control s result') : result = result' := by
  induction h generalizing height' result' with
  | unknown absent =>
      cases h' with
      | unknown _ => rfl
      | known found _ => exact nomatch absent.symm.trans found
  | @known height flow f input control s nested found _ ih =>
      cases h' with
      | unknown absent => exact nomatch absent.symm.trans found
      | @known height' _ f' _ _ _ nested' found' inside' =>
          obtain rfl : f = f' := Option.some.inj (found.symm.trans found')
          refine execute_calling_congr (fun step hstep inner htarget => ?_) control input s
          funext record narrowed s'
          exact ih step hstep inner htarget record narrowed s'
            (inside' step hstep inner htarget record narrowed s')

/-! ## Levels -/

/-- One level is spent on a flow that is called. -/
theorem invoker_succ (env : Surroundings σ) (registry : Registry) (levels : Nat) :
    invoker env registry (levels + 1)
      = calling env registry (runWith env registry (invoker env registry levels)) := by
  funext target input control s
  cases target <;> rfl

theorem nestingDepth_eq_depth (registry : Registry) (flow : String) :
    nestingDepth registry flow = registry.depth (.flow flow) := by
  rw [nestingDepth, Registry.depth]
  cases registry.flows.get? flow <;> rfl

/-- **The levels last.**  With at least as many levels as its nesting depth, a flow runs as it is
    meant to.

    The induction is on the levels.  A flow that is called is nested less deep than its caller,
    so one level less is still enough for it; and with no level at all there is only the unknown
    flow. -/
theorem runs_of_nestingDepth_le (hr : registry.Sound) (env : Surroundings σ) {levels : Nat}
    {flow : String} (hle : nestingDepth registry flow ≤ levels) (input : Record)
    (control : Control) (s : σ) :
    Runs env registry levels flow input control s
      (runWith env registry (invoker env registry levels) flow input control s) := by
  induction levels generalizing flow input control s with
  | zero =>
      -- Only an unknown flow is so flat.
      cases hf : registry.flows.get? flow with
      | none =>
          rw [runWith, hf]
          exact .unknown hf
      | some f =>
          have hpos := hr.nestingDepth_pos hf
          rw [nestingDepth, hf] at hle
          exact absurd hpos (Nat.not_lt.mpr hle)
  | succ levels ih =>
      cases hf : registry.flows.get? flow with
      | none =>
          rw [runWith, hf]
          exact .unknown hf
      | some f =>
          -- The invoker spends a level on the flows that the steps call.
          rw [runWith, hf, invoker_succ]
          refine .known hf fun step hstep inner htarget record narrowed s' => ih ?_ ..
          have hcall : registry.Calls (.flow flow) (.flow inner) :=
            ⟨flow, f, step, rfl, hf, hstep, htarget⟩
          have hless := hr.depth_lt hcall
          rw [← nestingDepth_eq_depth, ← nestingDepth_eq_depth] at hless
          omega

end

/-- **Grounded registries, bounded runs.**  After any row of submissions: one more definition is
    refused and changes nothing, or is added and changes nothing else; what is registered calls
    what is registered, without cycles and not deeper than the limit; and every run comes to its
    one result with no more runs one inside the other than the nesting depth of its flow.

    The runs are those of `Runs`, which counts no levels down: that the engine does so is a matter
    of its program alone and decides about no result. -/
theorem run_grounded (limits : Limits) (ds : List Definition) (env : Surroundings σ) :
    (∀ d,
        (∀ e, (Registry.ofDefinitions limits ds).register d = .error e →
          (Registry.ofDefinitions limits ds).submit d = .ofDefinitions limits ds)
        ∧ ∀ r', (Registry.ofDefinitions limits ds).register d = .ok r' →
          (Registry.ofDefinitions limits ds).submit d = r'
            ∧ (Registry.ofDefinitions limits ds).AddsOnly d r')
      ∧ (Registry.ofDefinitions limits ds).limits = limits
      ∧ (Registry.ofDefinitions limits ds).Grounded
      ∧ ∀ flow input control s,
        Runs env (.ofDefinitions limits ds) (nestingDepth (.ofDefinitions limits ds) flow) flow
            input control s (run env (.ofDefinitions limits ds) flow input control s)
          ∧ ∀ height result,
              Runs env (.ofDefinitions limits ds) height flow input control s result →
              result = run env (.ofDefinitions limits ds) flow input control s := by
  have hr := Registry.sound_ofDefinitions limits ds
  refine ⟨fun d => ⟨fun e h => Registry.submit_of_refused h, fun r' h =>
      ⟨Registry.submit_of_admitted h, Registry.register_addsOnly h⟩⟩,
    Registry.limits_ofDefinitions limits ds, hr.grounded, fun flow input control s => ?_⟩
  have hruns : Runs env (.ofDefinitions limits ds) (nestingDepth (.ofDefinitions limits ds) flow)
      flow input control s (run env (.ofDefinitions limits ds) flow input control s) :=
    runs_of_nestingDepth_le hr env (Nat.le_refl _) input control s
  exact ⟨hruns, fun height result h => h.unique hruns⟩

/-- The visit has the gate inside it, and the gate has a table. -/
example :
    nestingDepth (.ofDefinitions .default Registry.visitDefinitions) "visit" = 2
      ∧ nestingDepth (.ofDefinitions .default Registry.visitDefinitions) "gate" = 1 := by
  decide

end Verdict.Run
