/-
  Cancellation — what a run still does after somebody has asked it to stop.

  1. **Surroundings** — the flag of the run's control may rise at any time, before the run or while
     any event of it is recorded, on whatever level.  It is never lowered again (`KeepsRaised`).

  2. **Invariant** — `Calm`: nothing in the trace that comes after the flag was raised is a call or
     an evaluation, and a flag that was raised in the trace is raised now.  A run calls a target
     only after it has looked at its flag, so up to that point the trace is `Clear`.  Every stage of
     a run keeps the trace calm, and so does the run on every level (`tracedInvoker_staysCalm`).

  3. **Theorem** — `run_stops_in_time`: after the flag was raised no target is called and no table
     evaluated, every level completes at most the one step that it had called before, and the run
     ends in an error.  If the flag was raised before the run, or at the completion of a step whose
     gate passes, then the run is cancelled right there, with the count of its completed steps.
-/
import Mathlib
import Verdict.Proofs.Run.Trace
import Verdict.Proofs.Run.Typing

namespace Verdict.Run

variable {σ : Type}

/-! ## The specification -/

/-- A raised flag stays raised. -/
structure Surroundings.KeepsRaised (env : Surroundings σ) (flag : Flag) : Prop where
  clock : ∀ s, env.cancelled s flag = true → env.cancelled (env.clock s).2 flag = true
  record : ∀ event s, env.cancelled s flag = true → env.cancelled (env.record event s) flag = true

namespace Happening

/-- Is the flag raised once this has happened? -/
def Raised (env : Surroundings σ) (flag : Flag) : Happening σ → Prop
  | started s => env.cancelled s flag = true
  | recorded _ _ s => env.cancelled s flag = true
  | called _ _ => False

/-- Is this neither the call of a target nor the evaluation of a table? -/
def isIdle : Happening σ → Bool
  | called _ _ => false
  | recorded _ (.tableEvaluated _ _ _) _ => false
  | _ => true

/-- Is this the end of the run on `level`? -/
def isEnd (level : Nat) : Happening σ → Bool
  | recorded l (.runFinished _ _ _) _ => l == level
  | _ => false

end Happening

/-- How a run of a flow stops once its flag is raised. -/
structure StopsInTime (env : Surroundings σ) (flag : Flag) (registry : Registry) (flow : String)
    (input : Record) (start : σ) (report : Report) (trace : Trace σ) : Prop where
  /-- No target is called and no table is evaluated any more, on any level. -/
  idle : ∀ before h after, trace = before ++ h :: after → h.Raised env flag →
    ∀ later ∈ after, later.isIdle = true
  /-- Every level completes at most one more step. -/
  entries : ∀ before h after, trace = before ++ h :: after → h.Raised env flag →
    ∀ level, after.countP (Happening.isEntry level) ≤ 1
  /-- There is no output, unless the flag was raised at the end of the run itself. -/
  withheld : ∀ h ∈ trace, h.Raised env flag → h.isEnd (nestingDepth registry flow) = false →
    ∃ e, report.outcome = .error e
  /-- A flag that is raised before the run stops it before its first step. -/
  beforehand : ∀ f, registry.flows.get? flow = some f → f.flow.input.check input = .ok () →
    env.cancelled start flag = true → report.outcome = .error (.cancelled 0 none)
  /-- A flag that is raised when a step completes stops the run after this step. -/
  atStep : ∀ f k step id name s, registry.flows.get? flow = some f →
    f.flow.steps[k]? = some step →
    .recorded (nestingDepth registry flow) (.stepCompleted id name k) s ∈ trace →
    env.cancelled s flag = true → GatePasses step report.context →
    report.outcome = .error (.cancelled (k + 1) (some step.name))

/-! ## Calm -/

/-- Nothing in the trace raises the flag. -/
def Clear (env : Surroundings σ) (flag : Flag) (trace : Trace σ) : Prop :=
  ∀ h ∈ trace, ¬ h.Raised env flag

/-- Nothing is called or evaluated after the flag was raised, and the flag is still raised. -/
structure Calm (env : Surroundings σ) (flag : Flag) (s : σ × Trace σ) : Prop where
  idle : s.2.Pairwise fun h later => h.Raised env flag → later.isIdle = true
  kept : ∀ h ∈ s.2, h.Raised env flag → env.cancelled s.1 flag = true

section

variable {env : Surroundings σ} {flag : Flag}

/-- **One more happening** keeps the trace calm, if it is idle or the flag was not raised before.
    What is left to say of it is that the flag stays raised over it, and that it is raised after it
    if it was raised in it. -/
theorem Calm.snoc {s s' : σ} {trace : Trace σ} {x : Happening σ} (h : Calm env flag (s, trace))
    (hx : x.isIdle = true ∨ Clear env flag trace)
    (hkept : env.cancelled s flag = true → env.cancelled s' flag = true)
    (hraised : x.Raised env flag → env.cancelled s' flag = true) :
    Calm env flag (s', trace ++ [x]) where
  idle := by
    refine List.pairwise_append.mpr ⟨h.idle, List.pairwise_singleton .., ?_⟩
    intro y hy z hz hy'
    obtain rfl := List.mem_singleton.mp hz
    rcases hx with hidle | hclear
    · exact hidle
    · -- Nothing before it has raised the flag.
      exact absurd hy' (hclear y hy)
  kept := by
    intro y hy hy'
    rcases List.mem_append.mp hy with hmem | hmem
    · exact hkept (h.kept y hmem hy')
    · obtain rfl := List.mem_singleton.mp hmem
      exact hraised hy'

theorem Calm.noteCall {s : σ × Trace σ} (h : Calm env flag s) (hclear : Clear env flag s.2)
    (level : Nat) (target : Target) : Calm env flag (noteCall level target s) :=
  h.snoc (Or.inr hclear) id False.elim

/-- Right before a call the trace is clear, if the flag is not raised. -/
theorem Calm.clear {s : σ × Trace σ} (h : Calm env flag s) (hlow : env.cancelled s.1 flag = false) :
    Clear env flag s.2 := by
  intro x hx hraised
  have hhigh := h.kept x hx hraised
  exact Bool.false_ne_true (hlow.symm.trans hhigh)

/-- A run that goes on has looked at its flag. -/
theorem not_cancelled_of_quiet {τ : Type} {env : Surroundings τ} {control : Control} {s s₁ : τ}
    (h : interruption? env control s = (none, s₁)) : env.cancelled s control.flag = false := by
  rw [← Bool.not_eq_true]
  intro hraised
  rw [interruption?, if_pos hraised] at h
  cases h

variable (keeps : env.KeepsRaised flag)
include keeps

/-- What is recorded keeps the trace calm, unless it is an evaluation after the flag was raised. -/
theorem Calm.record (level : Nat) {s : σ × Trace σ} (h : Calm env flag s) (event : Event)
    (hidle : (Happening.recorded level event s.1).isIdle = true ∨ Clear env flag s.2) :
    Calm env flag ((env.traced level).record event s) := by
  have hidle' : (Happening.recorded level event (env.record event s.1)).isIdle = true
      ∨ Clear env flag s.2 := by
    rcases hidle with hidle | hclear
    · refine Or.inl ?_
      rw [← hidle]
      cases event <;> rfl
    · exact Or.inr hclear
  exact h.snoc hidle' (keeps.record event s.1) id

variable {level : Nat}

theorem Calm.passes {s s' : σ × Trace σ} (h : Calm env flag s)
    (hpasses : Passes (env.traced level) s s') : Calm env flag s' := by
  induction hpasses with
  | nothing => exact h
  | reading before ih => exact ⟨ih.idle, fun x hx hraised => keeps.clock _ (ih.kept x hx hraised)⟩

/-- **A run that goes on** has looked at its flag and found it low; so the trace is clear, since a
    flag that was raised in it would still be raised. -/
theorem Calm.ready {control : Control} (hflag : control.flag = flag) {s s₁ : σ × Trace σ}
    (h : Calm env flag s) (quiet : interruption? (env.traced level) control s = (none, s₁)) :
    Calm env flag s₁ ∧ Clear env flag s₁.2 := by
  have hpasses := Passes.of_interruption? quiet
  have hlow : (env.traced level).cancelled s flag = false := by
    rw [← hflag]
    exact not_cancelled_of_quiet quiet
  refine ⟨h.passes keeps hpasses, ?_⟩
  rw [trace_of_passes hpasses]
  exact h.clear hlow

/-! ## One step -/

/-- An invoker that keeps a trace calm which is clear so far. -/
def Invoker.StaysCalm (invoke : Invoker (σ × Trace σ)) (env : Surroundings σ) (flag : Flag) :
    Prop :=
  ∀ target input control s, control.flag = flag → Calm env flag s → Clear env flag s.2 →
    Calm env flag (invoke target input control s).2

theorem askGate_calm (flow : String) (step : Step) (index : Nat) (context : Context)
    {s : σ × Trace σ} (h : Calm env flag s) :
    Calm env flag (askGate (env.traced level) flow step index context s).2 := by
  unfold askGate
  cases step.gate with
  | none => exact h
  | some gate =>
      dsimp only
      have hasked := h.record keeps level (.gateEvaluated flow step.name index gate.text
        (gate.holds (FieldTest.holds context.lookup))) (Or.inl rfl)
      split <;> exact hasked

variable {invoke : Invoker (σ × Trace σ)} (hinvoke : invoke.StaysCalm env flag)
include hinvoke

/-- **One step** that begins after a look at the flag keeps the trace calm.

    It is the call that needs the look; what the step does after the call is to record its
    completion and what its gate says, and both are idle. -/
theorem runStep_calm {control : Control} (hflag : control.flag = flag) {flow : String}
    {input : Record} {index : Nat} {step : Step} {expected : ValueType} {context : Context}
    {ending : StepEnd} {s s₁ s₂ : σ × Trace σ} (h : Calm env flag s)
    (quiet : interruption? (env.traced level) control s = (none, s₁))
    (hrun : runStep (env.traced level) invoke control flow input index step expected context s₁
      = (ending, s₂)) : Calm env flag s₂ := by
  obtain ⟨hcalm, hclear⟩ := h.ready keeps hflag quiet
  have hs₂ : s₂ = (runStep (env.traced level) invoke control flow input index step expected
      context s₁).2 := by rw [hrun]
  rw [hs₂, runStep]
  cases bindInputs step index input context with
  | error e => exact hcalm
  | ok bound =>
      dsimp only
      -- Between the look and the call nothing but time passes, so the trace is still clear.
      have hcalled : Calm env flag (call (env.traced level) invoke control step bound s₁).2 := by
        obtain ⟨handed, s₀, hhanded, hbefore, hafter⟩ :=
          call_passes (env.traced level) invoke control step bound s₁
        have hclear₀ : Clear env flag s₀.2 := by
          rw [trace_of_passes hbefore]
          exact hclear
        have hanswered := hinvoke step.target bound handed s₀ (hhanded.trans hflag)
          (hcalm.passes keeps hbefore) hclear₀
        exact hanswered.passes keeps hafter
      generalize call (env.traced level) invoke control step bound s₁ = called at hcalled
      obtain ⟨ending, s'⟩ := called
      cases ending with
      | interrupted why => exact hcalled
      | timedOut budget => exact hcalled
      | failed cause => exact hcalled
      | value v =>
          dsimp only
          split
          · -- Accepted: the step is completed, and then its gate is asked.
            have hentry := hcalled.record keeps level (.stepCompleted flow step.name index)
              (Or.inl rfl)
            exact askGate_calm keeps flow step index _ hentry
          · exact hcalled

/-! ## The whole run -/

variable {control : Control} (hflag : control.flag = flag) {f : AdmittedFlow} {input : Record}
  {start : σ × Trace σ} (hstart : Calm env flag start)
include hflag hstart

theorem Moment.calm {index : Nat} {context : Context} {s : σ × Trace σ}
    (h : Moment (env.traced level) invoke control f input start index context s) :
    Calm env flag s := by
  induction h with
  | start conforming => exact hstart
  | next before quiet due completed ih =>
      exact runStep_calm keeps hinvoke hflag ih quiet completed

/-- A run that goes on from a moment finds its trace clear. -/
theorem Moment.ready {index : Nat} {context : Context} {s s₁ : σ × Trace σ}
    (h : Moment (env.traced level) invoke control f input start index context s)
    (quiet : interruption? (env.traced level) control s = (none, s₁)) :
    Calm env flag s₁ ∧ Clear env flag s₁.2 :=
  (h.calm keeps hinvoke hflag hstart).ready keeps hflag quiet

omit hinvoke hflag hstart in
theorem finish_calm {s : σ × Trace σ} (h : Calm env flag s) (flow : String) (status : Status)
    (context : Context) (outcome : Except RunError Record) :
    Calm env flag (finish (env.traced level) flow status context outcome s).2 := by
  refine h.record keeps level (.ofOutcome flow context.length outcome) (Or.inl ?_)
  cases outcome <;> rfl

/-- **A finished run** leaves the trace calm: the moment it has come to, the step it has run last,
    and its end, which is idle too. -/
theorem Ends.calm {result : Report × σ × Trace σ}
    (h : Ends (env.traced level) invoke control f input start result) :
    Calm env flag result.2 := by
  cases h with
  | refused violated => exact finish_calm keeps hstart _ _ _ _
  | @stoppedBetween index context s s₁ why moment stopped =>
      have hmoment := moment.calm keeps hinvoke hflag hstart
      have hcalm := hmoment.passes keeps (.of_interruption? stopped)
      exact finish_calm keeps hcalm _ _ _ _
  | stoppedInside moment quiet due stopped =>
      have hcalm := moment.calm keeps hinvoke hflag hstart
      exact finish_calm keeps (runStep_calm keeps hinvoke hflag hcalm quiet stopped) _ _ _ _
  | failed moment quiet due failed =>
      have hcalm := moment.calm keeps hinvoke hflag hstart
      exact finish_calm keeps (runStep_calm keeps hinvoke hflag hcalm quiet failed) _ _ _ _
  | projected moment quiet output_eq =>
      obtain ⟨hcalm, _⟩ := moment.ready keeps hinvoke hflag hstart quiet
      exact finish_calm keeps hcalm _ _ _ _
  | unprojected moment quiet output_eq =>
      obtain ⟨hcalm, _⟩ := moment.ready keeps hinvoke hflag hstart quiet
      exact finish_calm keeps hcalm _ _ _ _

/-- A run that has an output was never asked to stop before its end: right before it has read its
    outputs it has looked at its flag once more. -/
theorem Ends.isEnd_of_ok {result : Report × σ × Trace σ} {output : Record}
    (h : Ends (env.traced level) invoke control f input start result)
    (hok : result.1.outcome = .ok output) {x : Happening σ} (hx : x ∈ result.2.2)
    (hraised : x.Raised env flag) : x.isEnd level = true := by
  cases h with
  | projected moment quiet output_eq =>
      obtain ⟨_, hclear⟩ := moment.ready keeps hinvoke hflag hstart quiet
      rcases List.mem_append.mp hx with hmem | hmem
      · exact absurd hraised (hclear x hmem)
      · obtain rfl := List.mem_singleton.mp hmem
        exact beq_self_eq_true level
  | _ => cases hok

/-! ## A step at whose completion the flag rises -/

variable (hnotes : invoke.Notes level)
include hnotes

/-- **The flag rises at a completed step.**  Then the run comes one moment further, and no more: at
    every earlier moment that is left the trace has to be clear, so the completed step is the last
    thing that was done for this moment. -/
theorem Moment.of_raised_entry {index k : Nat} {context : Context} {s : σ × Trace σ}
    {id name : String} {s' : σ}
    (h : Moment (env.traced level) invoke control f input start index context s)
    (hmem : .recorded level (.stepCompleted id name k) s' ∈ s.2)
    (hnew : .recorded level (.stepCompleted id name k) s' ∉ start.2)
    (hraised : env.cancelled s' flag = true) :
    index = k + 1 ∧ ∀ step, f.flow.steps[k]? = some step → context.last? = some step.name := by
  cases h with
  | start conforming => exact absurd hmem hnew
  | @next index context context' s s₁ s₂ step expected before quiet due completed =>
      obtain ⟨_, hclear⟩ := before.ready keeps hinvoke hflag hstart quiet
      obtain ⟨left, hleft, hleaves⟩ := runStep_leaves hnotes completed
      rw [hleft] at hmem
      rcases List.mem_append.mp hmem with hbefore | hstep
      · -- It was completed before: then the run would not have gone on.
        exact absurd hraised (hclear _ hbefore)
      obtain ⟨rfl, v, hending | ⟨e, hending, _⟩⟩ := hleaves.entry hstep
      · cases hending
        refine ⟨rfl, fun step' hstep' => ?_⟩
        have hdue : f.flow.steps[k]? = some step := (List.getElem?_zip_eq_some.mp due).1
        cases hdue.symm.trans hstep'
        exact Context.last?_push ..
      · cases hending

/-- **The run is cancelled after the step**, unless the step's gate fails.

    All ends but two are excluded because the run has looked at its flag in between.  It is stopped
    between two steps, at the moment behind the completed one, or it has failed at the gate of that
    very step, which is excluded by hypothesis. -/
theorem Ends.of_raised_entry {result : Report × σ × Trace σ} {k : Nat} {id name : String} {s' : σ}
    {step : Step} (h : Ends (env.traced level) invoke control f input start result)
    (hstep : f.flow.steps[k]? = some step)
    (hmem : .recorded level (.stepCompleted id name k) s' ∈ result.2.2)
    (hnew : .recorded level (.stepCompleted id name k) s' ∉ start.2)
    (hraised : env.cancelled s' flag = true) (hgate : GatePasses step result.1.context) :
    result.1.outcome = .error (.cancelled (k + 1) (some step.name)) := by
  have hfinish : ∀ {s : σ × Trace σ} {status : Status} {context : Context}
      {outcome : Except RunError Record},
      .recorded level (.stepCompleted id name k) s'
        ∈ (finish (env.traced level) f.flow.id status context outcome s).2.2 →
      .recorded level (.stepCompleted id name k) s' ∈ s.2 := by
    intro s status context outcome hin
    rcases List.mem_append.mp hin with hbefore | hend
    · exact hbefore
    · cases outcome <;> cases List.mem_singleton.mp hend
  cases h with
  | refused violated => exact absurd (hfinish hmem) hnew
  | @stoppedBetween index context s s₁ why moment stopped =>
      -- The end that is claimed: its count and its last step are those of the moment.
      have hbefore := hfinish hmem
      rw [trace_of_interruption? stopped] at hbefore
      obtain ⟨hindex, hlast⟩ := moment.of_raised_entry keeps hinvoke hflag hstart hnotes hbefore
        hnew hraised
      have hcancelled : (env.traced level).cancelled s control.flag = true := by
        rw [hflag]
        exact (moment.calm keeps hinvoke hflag hstart).kept _ hbefore hraised
      rw [interruption?, if_pos hcancelled] at stopped
      cases stopped
      show Except.error (RunError.cancelled context.length context.last?) = _
      rw [moment.length_eq, hindex, hlast step hstep]
  | @stoppedInside index context s s₁ s₂ step' expected why moment quiet due stopped =>
      obtain ⟨_, hclear⟩ := moment.ready keeps hinvoke hflag hstart quiet
      obtain ⟨left, hleft, hleaves⟩ := runStep_leaves hnotes stopped
      have hin := hfinish hmem
      rw [hleft] at hin
      rcases List.mem_append.mp hin with hbefore | hinside
      · exact absurd hraised (hclear _ hbefore)
      · -- A step that is stopped in its call is not completed.
        obtain ⟨_, v, hending | ⟨e, hending, _⟩⟩ := hleaves.entry hinside <;> cases hending
  | @failed index context context' s s₁ s₂ step' expected e moment quiet due failed =>
      obtain ⟨_, hclear⟩ := moment.ready keeps hinvoke hflag hstart quiet
      obtain ⟨left, hleft, hleaves⟩ := runStep_leaves hnotes failed
      have hin := hfinish hmem
      rw [hleft] at hin
      rcases List.mem_append.mp hin with hbefore | hinside
      · exact absurd hraised (hclear _ hbefore)
      -- The step that failed is the one at `k`, so it is its gate that has failed.
      obtain ⟨rfl, v, hending | ⟨e', hending, hrefused⟩⟩ := hleaves.entry hinside
      · cases hending
      · cases hending
        have hdue : f.flow.steps[k]? = some step' := (List.getElem?_zip_eq_some.mp due).1
        cases hdue.symm.trans hstep
        exact absurd hgate hrefused
  | projected moment quiet output_eq =>
      obtain ⟨_, hclear⟩ := moment.ready keeps hinvoke hflag hstart quiet
      exact absurd hraised (hclear _ (hfinish hmem))
  | unprojected moment quiet output_eq =>
      obtain ⟨_, hclear⟩ := moment.ready keeps hinvoke hflag hstart quiet
      exact absurd hraised (hclear _ (hfinish hmem))

end

/-! ## All levels -/

section

variable {env : Surroundings σ} {flag : Flag} (keeps : env.KeepsRaised flag)
  (registry : Registry)
include keeps

theorem runWith_calm {invoke : Invoker (σ × Trace σ)} (hinvoke : invoke.StaysCalm env flag)
    (level : Nat) (flow : String) (input : Record) {control : Control}
    (hflag : control.flag = flag) {s : σ × Trace σ} (h : Calm env flag s) :
    Calm env flag (runWith (env.traced level) registry invoke flow input control s).2 := by
  unfold runWith
  cases registry.flows.get? flow with
  | none => exact finish_calm keeps h _ _ _ _
  | some f => exact (execute_ends _ invoke control f input s).calm keeps hinvoke hflag h

/-- **Every level stays calm.**  A call is made while the trace is clear.  A table is evaluated
    right behind its call, before anything can raise the flag; a nested run has the flag of the run
    that calls it, and so it looks at the same flag before each of its own steps. -/
theorem tracedInvoker_staysCalm (level : Nat) :
    (tracedInvoker env registry level).StaysCalm env flag := by
  intro target input control s hflag h hclear
  induction level, target using levels_induction generalizing input control s with
  | table level table =>
      have hnoted : Clear env flag (noteCall level (.table table) s).2 := by
        intro x hx hraised
        rcases List.mem_append.mp hx with hbefore | hcall
        · exact hclear x hbefore hraised
        · cases List.mem_singleton.mp hcall
          exact hraised
      have hevaluated : Calm env flag (evaluate (env.traced level) registry table input
          (noteCall level (.table table) s)).2 :=
        (h.noteCall hclear level (.table table)).record keeps level _ (Or.inr hnoted)
      rw [tracedInvoker]
      generalize evaluate (env.traced level) registry table input
        (noteCall level (.table table) s) = result at hevaluated
      obtain ⟨result, s'⟩ := result
      cases result <;> exact hevaluated
  | spent flow => exact h.noteCall hclear 0 (.flow flow)
  | flow level flow ih =>
      have hinvoke : (tracedInvoker env registry level).StaysCalm env flag :=
        fun target input control s hflag h hclear => ih target input control s hflag h hclear
      have hrun := runWith_calm keeps registry hinvoke level flow input hflag
        (h.noteCall hclear (level + 1) (.flow flow))
      rw [tracedInvoker]
      generalize runWith (env.traced level) registry (tracedInvoker env registry level) flow
        input control (noteCall (level + 1) (.flow flow) s) = result at hrun
      obtain ⟨⟨status, context, outcome⟩, s'⟩ := result
      cases outcome <;> exact hrun

end

/-! ## The run that is started -/

/-- A run whose flag is raised stops at the next boundary. -/
theorem runSteps_of_cancelled {env : Surroundings σ} {control : Control} {s : σ}
    (h : env.cancelled s control.flag = true) (invoke : Invoker σ) (flow : Flow) (input : Record)
    (status : Status) (index : Nat) (context : Context) (steps : List (Step × ValueType)) :
    runSteps env invoke control flow input status index context steps s
      = interrupt env flow.id context .cancelled s := by
  have hstop : interruption? env control s = (some .cancelled, s) := by
    rw [interruption?, if_pos h]
  cases steps <;> rw [runSteps, hstop]

theorem calm_start (env : Surroundings σ) (flag : Flag) (s : σ) :
    Calm env flag (s, [.started s]) where
  idle := List.pairwise_singleton ..
  kept := by
    intro x hx hraised
    cases List.mem_singleton.mp hx
    exact hraised

section

variable {env : Surroundings σ} {control : Control} (keeps : env.KeepsRaised control.flag)
  (registry : Registry) (flow : String) (input : Record) (s : σ)
include keeps

theorem tracedRun_calm :
    Calm env control.flag (tracedRun env registry flow input control s).2 :=
  runWith_calm keeps registry (tracedInvoker_staysCalm keeps registry _) _ flow input rfl
    (calm_start env control.flag s)

/-- A run that has an output was not asked to stop before its end. -/
theorem tracedRun_withheld {x : Happening σ}
    (hx : x ∈ (tracedRun env registry flow input control s).2.2)
    (hraised : x.Raised env control.flag)
    (hnot : x.isEnd (nestingDepth registry flow) = false) :
    ∃ e, (tracedRun env registry flow input control s).1.outcome = .error e := by
  cases hf : registry.flows.get? flow with
  | none =>
      rw [tracedRun, runWith, hf]
      exact ⟨_, rfl⟩
  | some f =>
      have hends := tracedRun_ends hf env input control s
      have hstart := calm_start env control.flag s
      cases hok : (tracedRun env registry flow input control s).1.outcome with
      | error e => exact ⟨e, rfl⟩
      | ok output =>
          have hend := hends.isEnd_of_ok keeps (tracedInvoker_staysCalm keeps registry _) rfl hstart
            hok hx hraised
          exact absurd (hend.symm.trans hnot) Bool.true_eq_false.mp

/-- **In time.**  Whenever the flag of a run is raised, the run stops at the next boundary: nothing
    is called or evaluated any more, on any level, and the run has no output.

    The trace is that of the run itself, with its report and with what it leaves of the
    surroundings; the calm of this trace and its order give the five parts. -/
theorem run_stops_in_time :
    ∃ trace, tracedRun env registry flow input control s
        = ((run env registry flow input control s).1, (run env registry flow input control s).2,
          trace)
      ∧ TraceOf (nestingDepth registry flow) s (run env registry flow input control s).1
          (run env registry flow input control s).2 trace
      ∧ StopsInTime env control.flag registry flow input s
          (run env registry flow input control s).1 trace := by
  have htrace := tracedRun_traceOf env registry flow input control s
  have hcalm := tracedRun_calm keeps registry flow input s
  rw [run_eq_tracedRun]
  refine ⟨(tracedRun env registry flow input control s).2.2, rfl, htrace, ?_⟩
  have hidle : ∀ before h after, (tracedRun env registry flow input control s).2.2
      = before ++ h :: after → h.Raised env control.flag →
      ∀ later ∈ after, later.isIdle = true := by
    intro before h after heq hraised later hlater
    have hpairs := hcalm.idle
    rw [heq] at hpairs
    have hafter := (List.pairwise_append.mp hpairs).2.1
    exact (List.pairwise_cons.mp hafter).1 later hlater hraised
  constructor
  case idle => exact hidle
  case entries =>
    -- Behind the happening there are no calls, and a completed step needs one.
    intro before h after heq hraised level
    have horderly := htrace.orderly
    rw [heq, ← List.singleton_append, ← List.append_assoc] at horderly
    refine horderly.entries_le_one (fun l target hcall => ?_) level
    exact Bool.false_ne_true (hidle before h after heq hraised _ hcall)
  case withheld =>
    intro h hmem hraised hnot
    exact tracedRun_withheld keeps registry flow input s hmem hraised hnot
  case beforehand =>
    -- The first look at the control is before the first step.
    intro f hf hcheck hraised
    have hrun : run env registry flow input control s
        = interrupt env f.flow.id .empty .cancelled s := by
      rw [run, runWith, hf]
      dsimp only
      rw [execute, hcheck]
      exact runSteps_of_cancelled hraised ..
    rw [run_eq_tracedRun] at hrun
    exact congrArg (fun result => result.1.outcome) hrun
  case atStep =>
    -- The completed step is not the start, with which the trace begins.
    intro f k step id name s' hf hstep hmem hraised hgate
    have hends := tracedRun_ends hf env input control s
    have hnew : .recorded (nestingDepth registry flow) (.stepCompleted id name k) s'
        ∉ ([.started s] : Trace σ) := by
      intro hin
      cases List.mem_singleton.mp hin
    exact hends.of_raised_entry keeps (tracedInvoker_staysCalm keeps registry _) rfl
      (calm_start env control.flag s) (tracedInvoker_notes env registry _) hstep hmem hnew hraised
      hgate

end

/-! ## A small run -/

/-- Surroundings in which the flag is raised while one event is recorded; the state says whether
    it is raised. -/
def Surroundings.raisedAt (event : Event) : Surroundings Bool where
  clock raised := (0, raised)
  cancelled raised _ := raised
  record e raised := raised || e = event

/-- The flag is raised when the only step of the outer flow completes: the run is cancelled. -/
theorem run_stops_in_time_visit :
    (Surroundings.raisedAt (.stepCompleted "visit" "gate" 0)).KeepsRaised ⟨0⟩
      ∧ (run (.raisedAt (.stepCompleted "visit" "gate" 0))
          (.ofDefinitions .default Registry.visitDefinitions) "visit" ofAge (.new ⟨0⟩)
          false).1.outcome = .error (.cancelled 1 (some "gate")) := by
  have keeps : (Surroundings.raisedAt (.stepCompleted "visit" "gate" 0)).KeepsRaised
      (Control.new ⟨0⟩).flag := by
    refine ⟨fun _ h => h, fun e raised h => ?_⟩
    cases raised
    · cases h
    · rfl
  obtain ⟨happened, heq, _, hstops⟩ := run_stops_in_time keeps
    (.ofDefinitions .default Registry.visitDefinitions) "visit" ofAge false
  refine ⟨keeps, ?_⟩
  have hentry : happened[7]? = some (.recorded 2 (.stepCompleted "visit" "gate" 0) true) := by
    have htrace : _ = happened := congrArg (fun result => result.2.2) heq
    rw [← htrace]
    rfl
  refine hstops.atStep Registry.admittedVisit 0 _ "visit" "gate" true Registry.visit_registered rfl
    (List.mem_of_getElem? hentry) rfl ?_
  intro gate hgate
  cases hgate

end Verdict.Run
