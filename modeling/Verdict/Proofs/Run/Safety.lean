/-
  Safe runs — the failures in which a run of a registered flow can end.

  1. **Specification** — `Chain layers e`: a failed step whose target failed, through at most
     `layers` failures one inside the other, because no rule of a table matched, because a gate did
     not hold or because a step ran out of time.  `RunFails` adds what a run can end in by itself.
     Nothing else is on the lists: no source without a value, no result of another type, no missing
     definition, no refused input of a target, and no interruption INSIDE a failed step.

  2. **Targets** — `Invoker.Safe`: what a target of at most so many levels answers to a conforming
     record is a value of its output type, or a failure from the lists.

  3. **Levels** — a flow whose targets are safe is safe (`Ends.safe`), and its targets are nested
     less deep than it is.  The induction is on the levels: `invoker_safe`, and `run_safe` for the
     run that starts them all.
-/
import Verdict.Proofs.Run.Typing
import Verdict.Proofs.Table.FirstMatch
import Verdict.Run.Engine

namespace Verdict.Run

variable {σ : Type}

/-! ## The specification -/

/-- A failed step with at most `layers` failures one inside the other, down to the cause. -/
inductive Chain : Nat → RunError → Prop
  | noRuleMatched {layers : Nat} {step : String} {index : Nat} {table : String} {input : Record} :
      Chain (layers + 1) (.stepFailed step index (.evaluation (.noRuleMatched table input)))
  | gateFailed {layers : Nat} {step : String} {index : Nat} {inner : String} {at' : Nat}
      {condition : String} {note : Option String} :
      Chain (layers + 1) (.stepFailed step index (.run (.gateFailed inner at' condition note)))
  | stepTimedOut {layers : Nat} {step : String} {index : Nat} {inner : String} {at' : Nat}
      {budget : UInt64} :
      Chain (layers + 1) (.stepFailed step index (.run (.stepTimedOut inner at' budget)))
  | stepFailed {layers : Nat} {step : String} {index : Nat} {e : RunError}
      (nested : Chain layers e) : Chain (layers + 1) (.stepFailed step index (.run e))

/-- The failures of a run of a flow in which flows are nested `depth` deep. -/
inductive RunFails (depth : Nat) : RunError → Prop
  | gateFailed {step : String} {index : Nat} {condition : String} {note : Option String} :
      RunFails depth (.gateFailed step index condition note)
  | stepTimedOut {step : String} {index : Nat} {budget : UInt64} :
      RunFails depth (.stepTimedOut step index budget)
  | cancelled {completed : Nat} {last : Option String} :
      RunFails depth (.cancelled completed last)
  | deadlineExceeded {completed : Nat} {last : Option String} :
      RunFails depth (.deadlineExceeded completed last)
  | stepFailed {e : RunError} (chain : Chain depth e) : RunFails depth e

/-- The outcomes of a run of an admitted flow. -/
inductive SafeOutcome (f : AdmittedFlow) (input : Record) : Except RunError Record → Prop
  | output {output : Record} (conforming : f.flow.input.check input = .ok ())
      (accepted : (ValueType.record f.facts.outputShape).accepts (.record output) = true) :
      SafeOutcome f input (.ok output)
  | failed {e : RunError} (conforming : f.flow.input.check input = .ok ())
      (failure : RunFails f.facts.nestingDepth e) : SafeOutcome f input (.error e)
  | invalidInput {violation : ShapeViolation}
      (violated : f.flow.input.check input = .error violation) :
      SafeOutcome f input (.error (.invalidInput f.flow.id violation))

/-! ## Chains -/

/-- Where fewer layers are enough, more do no harm.  The induction is on the chain; its three ends
    need one layer each, wherever that layer is counted from. -/
theorem Chain.mono {layers more : Nat} {e : RunError} (h : Chain layers e) (hle : layers ≤ more) :
    Chain more e := by
  induction h generalizing more with
  | noRuleMatched =>
      obtain ⟨more, rfl⟩ := Nat.exists_eq_add_of_lt hle
      exact .noRuleMatched
  | gateFailed =>
      obtain ⟨more, rfl⟩ := Nat.exists_eq_add_of_lt hle
      exact .gateFailed
  | stepTimedOut =>
      obtain ⟨more, rfl⟩ := Nat.exists_eq_add_of_lt hle
      exact .stepTimedOut
  | stepFailed _ ih =>
      -- The outer layer is taken off on both sides.
      cases more with
      | zero => exact absurd hle (Nat.not_succ_le_zero _)
      | succ more => exact .stepFailed (ih (Nat.le_of_succ_le_succ hle))

theorem RunFails.mono {depth more : Nat} {e : RunError} (h : RunFails depth e)
    (hle : depth ≤ more) : RunFails more e := by
  cases h with
  | gateFailed => exact .gateFailed
  | stepTimedOut => exact .stepTimedOut
  | cancelled => exact .cancelled
  | deadlineExceeded => exact .deadlineExceeded
  | stepFailed chain => exact .stepFailed (chain.mono hle)

theorem RunFails.ofInterruption {depth completed : Nat} {last : Option String}
    (why : Interruption) : RunFails depth (.ofInterruption completed last why) := by
  cases why with
  | cancelled => exact .cancelled
  | deadlineExceeded => exact .deadlineExceeded

/-- A failed run is no refused input. -/
theorem RunFails.ne_invalidInput {depth : Nat} {flow : String} {violation : ShapeViolation} :
    ¬ RunFails depth (.invalidInput flow violation) := by
  intro h
  cases h with
  | stepFailed chain => exact nomatch chain

/-! ## Targets -/

/-- The failures of a target in which flows are nested `depth` deep. -/
inductive TargetFails (depth : Nat) : StepFailure → Prop
  | noRuleMatched {table : String} {input : Record} :
      TargetFails depth (.evaluation (.noRuleMatched table input))
  | run {e : RunError} (failure : RunFails depth e) : TargetFails depth (.run e)

/-- A target's failure that does not stop the calling run adds one layer to the chain.  The two
    that do stop it, a cancellation and a passed deadline, are handed on as they are and never
    become the cause of a failed step. -/
theorem TargetFails.chain {depth : Nat} {cause : StepFailure} (h : TargetFails depth cause)
    (unstopped : cause.interruption? = none) (step : String) (index : Nat) :
    Chain (depth + 1) (.stepFailed step index cause) := by
  cases h with
  | noRuleMatched => exact .noRuleMatched
  | run failure =>
      cases failure with
      | gateFailed => exact .gateFailed
      | stepTimedOut => exact .stepTimedOut
      | cancelled => exact nomatch unstopped
      | deadlineExceeded => exact nomatch unstopped
      | stepFailed chain => exact .stepFailed chain

/-- Targets of at most so many levels answer a conforming record with a value of their output type,
    or fail in a way that is on the list. -/
def Invoker.Safe (invoke : Invoker σ) (registry : Registry) (levels : Nat) : Prop :=
  ∀ (target : Target) (signature : Signature) (record : Record) (control : Control) (s : σ),
    registry.signature? target = some signature → signature.nestingDepth ≤ levels →
    signature.input.check record = .ok () →
    (∃ v, (invoke target record control s).1 = .ok v ∧ Conforms signature.output v)
      ∨ ∃ cause, (invoke target record control s).1 = .error cause
        ∧ TargetFails signature.nestingDepth cause

section

variable {registry : Registry} {id : String} {f : AdmittedFlow} {env : Surroundings σ}
  {invoke : Invoker σ} {control : Control} {input : Record} {start : σ} {levels : Nat}

/-- **One step** of safe targets ends without a mismatch, and fails only in ways on the list.

    A step fails by itself at its gate or when its budget is spent; otherwise its target has been
    called, and what the target may answer is what `Invoker.Safe` allows. -/
theorem Invoker.Safe.step_fails (hsafe : invoke.Safe registry levels) {index : Nat} {step : Step}
    {expected : ValueType} {context context' : Context} {bound : Record} {target : Signature}
    {e : RunError} (hregistered : registry.signature? step.target = some target)
    (houtput : target.output = expected) (hlevels : target.nestingDepth ≤ levels)
    (hcheck : target.input.check bound = .ok ())
    (h : StepEnds invoke index step expected context bound (.failed context' e)) :
    RunFails (target.nestingDepth + 1) e := by
  cases h with
  | gateFailed => exact .gateFailed
  | timedOut => exact .stepTimedOut
  | @mismatched v answered rejected =>
      -- A safe target has answered a value of the type that is expected.
      cases answered with
      | @value control s s' _ answered =>
          have hanswer := hsafe step.target target bound control s hregistered hlevels hcheck
          rw [answered] at hanswer
          rcases hanswer with ⟨w, hw, hconf⟩ | ⟨cause, hcause, _⟩
          · -- Its answer conforms, so it cannot have been rejected.
            cases hw
            rw [houtput] at hconf
            rw [ValueType.accepts_iff.mpr hconf] at rejected
            exact nomatch rejected
          · -- It has answered a value, not a failure.
            exact nomatch hcause
  | @stepFailed cause answered =>
      -- A safe target has failed, in a way on its own list.
      cases answered with
      | @failed control s s' _ answered unstopped =>
          have hanswer := hsafe step.target target bound control s hregistered hlevels hcheck
          rw [answered] at hanswer
          rcases hanswer with ⟨w, hw, _⟩ | ⟨_, hcause, hfails⟩
          · exact nomatch hw
          · cases hcause
            exact .stepFailed (hfails.chain unstopped step.name index)

/-- **A flow of safe targets** is safe, however its run ends.

    One case for each of the ends a run can come to.  What all but the refusal share is a moment
    that has been reached, and at such a moment the input is known to conform (`Moment.typed`). -/
theorem Ends.safe (hr : registry.Sound) (hf : registry.flows.get? id = some f)
    (hsafe : invoke.Safe registry levels) (hlevels : f.facts.nestingDepth ≤ levels + 1)
    {run : Report × σ} (h : Ends env invoke control f input start run) :
    SafeOutcome f input run.1.outcome := by
  cases h with
  | refused violated =>
      -- The input does not conform: nothing has run.
      exact .invalidInput violated
  | @stoppedBetween _ _ _ _ why moment _ =>
      -- The control interrupts the run, before a step or after the last one.
      have hin := Shape.check_eq_ok_iff.mpr (moment.typed hr hf).1
      exact .failed hin (.ofInterruption why)
  | @stoppedInside _ _ _ _ _ _ _ why moment _ _ _ =>
      -- A target is interrupted, and its interruption is the run's.
      have hin := Shape.check_eq_ok_iff.mpr (moment.typed hr hf).1
      exact .failed hin (.ofInterruption why)
  | @failed index context context' _ s₁ _ step expected e moment _ due failed =>
      -- A step fails.  Its target is registered on a lower level, and its inputs can be bound.
      obtain ⟨hin, hctx⟩ := moment.typed hr hf
      obtain ⟨target, hregistered, houtput, hdepth, _, _⟩ := due_admitted hr hf due
      obtain ⟨target', bound, hregistered', hbound, hcheck⟩ := bindInputs_due hr hf due hin hctx
      obtain rfl : target = target' := Option.some.inj (hregistered.symm.trans hregistered')
      have hends := runStep_ends hbound env invoke control f.flow.id expected s₁
      rw [failed] at hends
      have hfails := hsafe.step_fails hregistered houtput (by omega) hcheck hends
      exact .failed (Shape.check_eq_ok_iff.mpr hin) (hfails.mono hdepth)
  | @projected context _ _ output moment _ output_eq =>
      -- All steps are done and the outputs are read: they have the type of the flow's output.
      have hin := Shape.check_eq_ok_iff.mpr (moment.typed hr hf).1
      obtain ⟨read, hread, hconf, _⟩ := moment.projectOutputs_eq_ok hr hf
      cases hread.symm.trans output_eq
      exact .output hin (ValueType.accepts_iff.mpr hconf)
  | @unprojected context _ _ _ _ moment _ output_eq =>
      -- An output without a value: every source of an admitted flow has one.
      obtain ⟨read, hread, _⟩ := moment.projectOutputs_eq_ok hr hf
      exact nomatch hread.symm.trans output_eq

end

/-! ## Levels -/

section

variable {registry : Registry} (hr : registry.Sound) (env : Surroundings σ)
include hr

/-- A registered table is a safe target, on any level: to a record that conforms it answers a value
    of its output type, or that no rule matched. -/
theorem invoker_safe_table {table : String} {signature : Signature}
    (hs : registry.signature? (.table table) = some signature) {record : Record}
    (hcheck : signature.input.check record = .ok ()) (levels : Nat) (control : Control) (s : σ) :
    (∃ v, (invoker env registry levels (.table table) record control s).1 = .ok v
        ∧ Conforms signature.output v)
      ∨ ∃ cause, (invoker env registry levels (.table table) record control s).1 = .error cause
        ∧ TargetFails signature.nestingDepth cause := by
  obtain ⟨t, ht, rfl⟩ := Option.map_eq_some_iff.mp hs
  have hevaluate : (evaluate env registry table record s).1 = t.evaluate record := by
    rw [evaluate, ht]
  generalize hresult : evaluate env registry table record s = result at hevaluate
  obtain ⟨result, s'⟩ := result
  subst hevaluate
  rcases Table.evaluate_of_check (hr.table table t ht).2 hcheck with ⟨answer, h, hconf⟩ | h
  · -- A rule matches.
    rw [h] at hresult
    refine Or.inl ⟨answer.value, ?_, hconf⟩
    cases levels <;> rw [invoker, hresult]
  · -- No rule matches.
    rw [h] at hresult
    refine Or.inr ⟨.evaluation (.noRuleMatched t.id record), ?_, .noRuleMatched⟩
    cases levels <;> rw [invoker, hresult]

/-- **Targets are safe** as far as the levels reach.

    The induction is on the levels, in the three cases in which an invoker is asked: for a table,
    for a flow with no level left, and for a flow whose own targets have one level less. -/
theorem invoker_safe (levels : Nat) : (invoker env registry levels).Safe registry levels := by
  intro target signature record control s hs hlevels hcheck
  induction levels, target using levels_induction generalizing signature record control s with
  | table levels table => exact invoker_safe_table hr env hs hcheck levels control s
  | spent id =>
      -- No flow is so flat.
      obtain ⟨f, hf, rfl⟩ := Option.map_eq_some_iff.mp hs
      have hpos := hr.nestingDepth_pos hf
      have hzero : f.facts.nestingDepth ≤ 0 := hlevels
      omega
  | flow levels id ih =>
      obtain ⟨f, hf, rfl⟩ := Option.map_eq_some_iff.mp hs
      have hdepth : f.facts.nestingDepth ≤ levels + 1 := hlevels
      have hin : f.flow.input.check record = .ok () := hcheck
      have hinside : (invoker env registry levels).Safe registry levels :=
        fun target signature record control s hs hlevels hcheck =>
          ih target signature record control s hs hlevels hcheck
      have hsafe := (execute_ends env (invoker env registry levels) control f record s).safe
        hr hf hinside hdepth
      -- What the nested run ends with is what the target answers.
      rw [invoker, runWith, hf]
      dsimp only
      cases hrun : execute env (invoker env registry levels) control f record s with
      | mk report s' =>
          rw [hrun] at hsafe
          obtain ⟨status, context, outcome⟩ := report
          cases outcome with
          | ok output =>
              cases hsafe with
              | output _ accepted => exact Or.inl ⟨_, rfl, ValueType.accepts_iff.mp accepted⟩
          | error e =>
              refine Or.inr ⟨_, rfl, .run ?_⟩
              cases hsafe with
              | failed _ failure => exact failure
              | invalidInput violated =>
                  -- The record that was bound for it conforms.
                  cases hin.symm.trans violated

end

/-- **Safe runs.**  A run of a registered flow ends with an output that its type accepts, or fails
    in one of the ways on the list; it refuses its input exactly if the check of the input shape
    fails.

    Nothing is asked of the surroundings: gates, clock and cancellations may be as they like.  The
    invoker is started with exactly the levels that the flow's own nesting needs. -/
theorem run_safe (limits : Limits) (ds : List Definition) {id : String} {f : AdmittedFlow}
    (hf : (Registry.ofDefinitions limits ds).flows.get? id = some f) (env : Surroundings σ)
    (input : Record) (control : Control) (s : σ) :
    SafeOutcome f input
        (run env (Registry.ofDefinitions limits ds) id input control s).1.outcome
      ∧ ((∃ flow violation,
            (run env (Registry.ofDefinitions limits ds) id input control s).1.outcome
              = .error (.invalidInput flow violation))
          ↔ f.flow.input.check input ≠ .ok ()) := by
  have hr := Registry.sound_ofDefinitions limits ds
  generalize Registry.ofDefinitions limits ds = registry at hf hr ⊢
  have hdepth : nestingDepth registry id = f.facts.nestingDepth := by rw [nestingDepth, hf]
  have hsafe : SafeOutcome f input (run env registry id input control s).1.outcome := by
    rw [run, runWith, hf, hdepth]
    exact (execute_ends env _ control f input s).safe hr hf (invoker_safe hr env _)
      (Nat.le_succ _)
  refine ⟨hsafe, ?_, ?_⟩
  · -- A refused input: no other outcome on the list is a refusal.
    rintro ⟨flow, violation, heq⟩ hin
    rw [heq] at hsafe
    cases hsafe with
    | failed _ failure => exact failure.ne_invalidInput
    | invalidInput violated => exact nomatch hin.symm.trans violated
  · -- An input that does not conform: all other outcomes have checked it.
    intro hout
    generalize (run env registry id input control s).1.outcome = outcome at hsafe ⊢
    cases hsafe with
    | output conforming _ => exact absurd conforming hout
    | failed conforming _ => exact absurd conforming hout
    | invalidInput violated => exact ⟨_, _, rfl⟩

/-- The input of somebody under age, for whom the table has no rule. -/
def underAge : Record := .cons "years" (.scalar (.int 17)) .nil

/-- A run that fails two levels below the flow that was started. -/
theorem run_safe_visit :
    (Registry.ofDefinitions .default Registry.visitDefinitions).flows.get? "visit"
        = some Registry.admittedVisit
      ∧ SafeOutcome Registry.admittedVisit underAge
          (run .still (Registry.ofDefinitions .default Registry.visitDefinitions) "visit" underAge
            (.new ⟨0⟩) ()).1.outcome :=
  ⟨Registry.visit_registered,
    (run_safe .default Registry.visitDefinitions Registry.visit_registered .still underAge
      (.new ⟨0⟩) ()).1⟩

end Verdict.Run
