/-
  Audits — what a run records is the log of its account.

  1. **Writing down** — `Books`: from one state to another ONE call is written down, with all events
     inside it.  Whatever a step comes to, it writes down its call and then its own events, of which
     there are none unless its result was stored (`Invoker.Accounts.runStep_books`).

  2. **Invariant** — `Kept`: at every moment the events are the log of the calls so far, and the
     calls fit the steps and the context.  It is kept from moment to moment and through every early
     end (`Ends.audited`), and from level to level (`accountingInvoker_accounts`).

  3. **Theorem** — `run_audited`: for every registry, flow, control and input.
-/
import Verdict.Proofs.Run.Accounts

namespace Verdict.Run

variable {σ : Type}

/-! ## Writing down -/

/-- A state with the events and with the accounts of the calls that were made. -/
abbrev Booked (σ : Type) := (σ × List Event) × List Account

/-- From one state to another a call is written down, with all events inside it. -/
structure Books (registry : Registry) (target : Target) (record : Record) (call : Account)
    (s s' : Booked σ) : Prop where
  target : call.target = target
  input : call.input = record
  faithful : call.Faithful registry
  events : s'.1.2 = s.1.2 ++ call.log registry
  accounts : s'.2 = s.2 ++ [call]

/-- Targets of at most so many levels write down their calls, and answer what is written down. -/
def Invoker.Accounts (invoke : Invoker (Booked σ)) (registry : Registry) (levels : Nat) : Prop :=
  ∀ (target : Target) (signature : Signature) (record : Record) (control : Control)
    (s : Booked σ), registry.signature? target = some signature → signature.nestingDepth ≤ levels →
    ∃ call, Books registry target record call s (invoke target record control s).2
      ∧ (invoke target record control s).1 = call.answer

section

variable {env : Surroundings σ}

theorem Passes.books_nothing {s s' : Booked σ} (h : Passes env.recording.accounting s s') :
    s'.1.2 = s.1.2 ∧ s'.2 = s.2 :=
  ⟨h.view_eq (·.1.2) fun _ => rfl, h.view_eq (·.2) fun _ => rfl⟩

/-- Looking at the control writes nothing down. -/
theorem books_nothing_of_interruption? {control : Control} {s s₁ : Booked σ}
    {why : Option Interruption}
    (h : interruption? env.recording.accounting control s = (why, s₁)) :
    s₁.1.2 = s.1.2 ∧ s₁.2 = s.2 :=
  (Passes.of_interruption? h).books_nothing

variable {registry : Registry} {invoke : Invoker (Booked σ)} {levels : Nat} {step : Step}
  {signature : Signature} (haccounts : invoke.Accounts registry levels)
  (hregistered : registry.signature? step.target = some signature)
  (hlevels : signature.nestingDepth ≤ levels)
include haccounts hregistered hlevels

/-- **One call** is written down; a value that comes out of it is the answer.  What happens before
    and after it inside the step are readings of the clock, and they write nothing down. -/
theorem Invoker.Accounts.call_books (env : Surroundings σ) (control : Control) (bound : Record)
    (s : Booked σ) :
    ∃ account, Books registry step.target bound account s
        (call env.recording.accounting invoke control step bound s).2
      ∧ ∀ v, (call env.recording.accounting invoke control step bound s).1 = .value v →
          account.answer = .ok v := by
  obtain ⟨handed, s₁, _, hbefore, hafter, hvalue⟩ :=
    call_answers env.recording.accounting invoke control step bound s
  obtain ⟨account, hbooks, hanswer⟩ :=
    haccounts step.target signature bound handed s₁ hregistered hlevels
  obtain ⟨hevents, hcalls⟩ := hbefore.books_nothing
  obtain ⟨hevents', hcalls'⟩ := hafter.books_nothing
  refine ⟨account, ⟨hbooks.target, hbooks.input, hbooks.faithful, ?_, ?_⟩, fun v hv => ?_⟩
  · rw [hevents', hbooks.events, hevents]
  · rw [hcalls', hbooks.accounts, hcalls]
  · rw [← hanswer]
    exact hvalue v hv

/-- **One step** writes down its call, and then its own events.  The context behind the step is the
    one before it, or has the answer of the call as one more entry; the step's events go by that. -/
theorem Invoker.Accounts.runStep_books {context : Context} {input bound : Record}
    (hbound : bindInputs step context.length input context = .ok bound) (control : Control)
    (flow : String) (expected : ValueType) {ending : StepEnd} {s s' : Booked σ}
    (h : runStep env.recording.accounting invoke control flow input context.length step expected
      context s = (ending, s')) :
    ∃ account, account.target = step.target ∧ account.input = bound ∧ account.Faithful registry
      ∧ Account.Enters step expected account context (ending.contextAfter context)
      ∧ s'.1.2 = s.1.2 ++ (account.log registry
          ++ stepEvents flow (ending.contextAfter context) context.length step)
      ∧ s'.2 = s.2 ++ [account] := by
  obtain ⟨account, hbooks, hvalue⟩ :=
    haccounts.call_books hregistered hlevels env control bound s
  have henters : Account.Enters step expected account context (ending.contextAfter context) := by
    rcases runStep_stores hbound h with ⟨hcontext, _⟩ | ⟨v, hv, hcontext, _⟩
    · rw [hcontext]
      exact .nothing
    · rw [hcontext]
      exact .answer (hvalue v hv)
  have hstate := runStep_records hbound h
  rw [Surroundings.recordAll_accounting, Surroundings.recordAll_recording] at hstate
  subst hstate
  refine ⟨account, hbooks.target, hbooks.input, hbooks.faithful, henters, ?_, hbooks.accounts⟩
  rw [hbooks.events, List.append_assoc]

end

/-! ## The invariant -/

/-- The events since the start of a run are the log of its calls so far, and the calls are true. -/
structure Kept (registry : Registry) (f : AdmittedFlow) (input : Record) (earlier : List Event)
    (context : Context) (calls : Nat) (s : Booked σ) : Prop where
  length : s.2.length = calls
  events : s.1.2 = earlier ++ Account.logCalls registry f.flow.id context 0 f.flow.steps s.2
  linked : Account.Linked f input context s.2
  inside : ∀ call ∈ s.2, call.Faithful registry

section

variable {registry : Registry} {id : String} {f : AdmittedFlow} {input : Record}
  {earlier : List Event} {context : Context} {control : Control} {env : Surroundings σ}

theorem Kept.start (registry : Registry) (f : AdmittedFlow) (input : Record)
    (earlier : List Event) (start : σ) :
    Kept registry f input earlier .empty 0 ((start, earlier), []) := by
  refine ⟨rfl, ?_, .empty, nofun⟩
  rw [Account.logCalls_nil, List.append_nil]

/-- A look at the control keeps the invariant, whatever it finds. -/
theorem Kept.of_interruption? {calls : Nat} {s s₁ : Booked σ} {why : Option Interruption}
    (h : Kept registry f input earlier context calls s)
    (hlook : interruption? env.recording.accounting control s = (why, s₁)) :
    Kept registry f input earlier context calls s₁ := by
  obtain ⟨hevents, hcalls⟩ := books_nothing_of_interruption? hlook
  refine ⟨?_, ?_, ?_, ?_⟩
  · rw [hcalls, h.length]
  · rw [hevents, hcalls, h.events]
  · rw [hcalls]
    exact h.linked
  · rw [hcalls]
    exact h.inside

/-- **One more call**, that of the step which is due, with the events of this step.

    The log of the calls in front does not change although the context may have grown, since it is
    written with what the context was at each of their steps. -/
theorem Kept.next {context' : Context} {s s' : Booked σ}
    (h : Kept registry f input earlier context context.length s) {step : Step}
    {expected : ValueType} {account : Account}
    (due : (typedSteps f)[context.length]? = some (step, expected))
    (htarget : account.target = step.target)
    (hbound : bindInputs step context.length input context = .ok account.input)
    (hfaithful : account.Faithful registry)
    (henters : Account.Enters step expected account context context')
    (hevents : s'.1.2 = s.1.2 ++ (account.log registry
      ++ stepEvents f.flow.id context' context.length step))
    (hcalls : s'.2 = s.2 ++ [account]) :
    Kept registry f input earlier context' (context.length + 1) s' := by
  obtain ⟨hstep, hexpected⟩ := List.getElem?_zip_eq_some.mp due
  have hcalled := h.linked.push_call h.length hstep htarget hbound
  have hlength : (s.2 ++ [account]).length = context.length + 1 := by
    rw [List.length_append, List.length_singleton, h.length]
  have hlast : (s.2 ++ [account])[context.length]? = some account := by
    rw [← h.length, List.getElem?_concat_length]
  -- Storing the result leaves the log of the calls in front as it was.
  have hfront : Account.logCalls registry f.flow.id context' 0 f.flow.steps s.2
      = Account.logCalls registry f.flow.id context 0 f.flow.steps s.2 := by
    cases henters with
    | nothing => rfl
    | answer _ =>
        have hle : 0 + s.2.length ≤ context.length := by rw [h.length, Nat.zero_add]
        exact Account.logCalls_push hle ..
  refine ⟨?_, ?_, ?_, ?_⟩
  · rw [hcalls, hlength]
  · -- The events: the log is longer by this call, and by the events of its step.
    have hnext : f.flow.steps[s.2.length]? = some step := by rw [h.length, hstep]
    rw [hevents, h.events, hcalls, Account.logCalls_snoc hnext, hfront, Nat.zero_add, h.length,
      List.append_assoc]
  · -- The links: the call goes ahead, and its answer follows if it has entered the context.
    rw [hcalls]
    cases henters with
    | nothing => exact hcalled
    | answer answered => exact hcalled.push_entry hlength hstep hexpected hlast answered
  · intro call hcall
    rw [hcalls] at hcall
    rcases List.mem_append.mp hcall with hfirst | hnew
    · exact h.inside call hfirst
    · rw [List.mem_singleton.mp hnew]
      exact hfaithful

variable {invoke : Invoker (Booked σ)} {start : σ} {levels : Nat} (hr : registry.Sound)
  (hf : registry.flows.get? id = some f) (haccounts : invoke.Accounts registry levels)
  (hlevels : f.facts.nestingDepth ≤ levels + 1)
include hr hf haccounts hlevels

/-- Whatever the step that is due comes to, its call is written down. -/
theorem Kept.runStep {index : Nat} {step : Step} {expected : ValueType} {ending : StepEnd}
    {s s₁ s₂ : Booked σ} (h : Kept registry f input earlier context index s)
    (moment : Moment env.recording.accounting invoke control f input ((start, earlier), []) index
      context s)
    (quiet : interruption? env.recording.accounting control s = (none, s₁))
    (due : (typedSteps f)[index]? = some (step, expected))
    (hran : Run.runStep env.recording.accounting invoke control f.flow.id input index step
      expected context s₁ = (ending, s₂)) :
    Kept registry f input earlier (ending.contextAfter context) (index + 1) s₂ := by
  obtain ⟨signature, hregistered, _, hdepth, _, _⟩ := due_admitted hr hf due
  obtain ⟨_, hbound, _⟩ := moment.due_ends hr hf due hran
  obtain rfl := moment.length_eq
  obtain ⟨account, htarget, rfl, hfaithful, henters, hevents, hcalls⟩ :=
    haccounts.runStep_books hregistered (by omega) hbound control f.flow.id expected hran
  exact (h.of_interruption? quiet).next due htarget hbound hfaithful henters hevents hcalls

/-- **The invariant** holds at every moment, with as many calls as steps are completed. -/
theorem Moment.kept {index : Nat} {s : Booked σ}
    (h : Moment env.recording.accounting invoke control f input ((start, earlier), []) index
      context s) : Kept registry f input earlier context index s := by
  induction h with
  | start conforming => exact .start registry f input earlier start
  | next before quiet due completed ih =>
      exact ih.runStep hr hf haccounts hlevels before quiet due completed

end

/-! ## Every ending -/

/-- A run that has ended is written down truly, behind the events that were there before. -/
structure Audited (registry : Registry) (flow : String) (input : Record) (earlier : List Event)
    (run : Report × Booked σ) : Prop where
  faithful : (Account.run flow input run.1 run.2.2).Faithful registry
  events : run.2.1.2 = earlier ++ (Account.run flow input run.1 run.2.2).log registry

section

variable {registry : Registry} {id : String} {f : AdmittedFlow} {input : Record}
  {earlier : List Event} {context : Context} {calls : Nat} {s : Booked σ}
  {outcome : Except RunError Record} (hr : registry.Sound)
  (hf : registry.flows.get? id = some f)
include hr hf

/-- The end of a run is recorded last. -/
theorem Kept.finish (h : Kept registry f input earlier context calls s) (env : Surroundings σ)
    (status : Status) (hgated : Account.Gated f ⟨status, context, outcome⟩ s.2) :
    Audited registry id input earlier
      (Run.finish env.recording.accounting f.flow.id status context outcome s) := by
  refine ⟨.run hf h.linked hgated h.inside, ?_⟩
  have hsteps : registry.stepsOf id = f.flow.steps := by
    rw [Registry.stepsOf, hf, Option.elim_some]
  show s.1.2 ++ [Event.ofOutcome f.flow.id context.length outcome] = _
  rw [Account.log, hsteps, h.events, (hr.flow id f hf).1, List.append_assoc]
  rfl

/-- So it is if all completed steps have passed their gates. -/
theorem Kept.finish_passed (h : Kept registry f input earlier context calls s)
    (env : Surroundings σ) (status : Status)
    (hpassed : GatesPassed f.flow context context.length)
    (houtcome : ∀ step i condition note,
      outcome ≠ .error (.gateFailed step i condition note)) :
    Audited registry id input earlier
      (Run.finish env.recording.accounting f.flow.id status context outcome s) :=
  h.finish hr hf env status (.of_passed hpassed houtcome)

/-- So it is if the run was stopped. -/
theorem Kept.interrupt (h : Kept registry f input earlier context calls s) (env : Surroundings σ)
    (hpassed : GatesPassed f.flow context context.length) (why : Interruption) :
    Audited registry id input earlier
      (Run.interrupt env.recording.accounting f.flow.id context why s) := by
  refine h.finish_passed hr hf env _ hpassed fun step i condition note => ?_
  cases why <;> exact nofun

variable {env : Surroundings σ} {invoke : Invoker (Booked σ)} {control : Control} {start : σ}
  {levels : Nat} (haccounts : invoke.Accounts registry levels)
  (hlevels : f.facts.nestingDepth ≤ levels + 1)
include haccounts hlevels

/-- **However a run of a registered flow ends**, it is written down truly.

    The invariant holds at the moment which the run has come to, and one more step keeps it; what
    differs from end to end is the gate.  Only a gate that has failed just now is not among those
    that have passed, and then the run reports it. -/
theorem Ends.audited {run : Report × Booked σ}
    (h : Ends env.recording.accounting invoke control f input ((start, earlier), []) run) :
    Audited registry id input earlier run := by
  cases h with
  | refused violated =>
      -- Nothing was called, and no gate was asked.
      have hpassed : GatesPassed f.flow .empty 0 := fun _ _ hi => absurd hi (Nat.not_lt_zero _)
      exact (Kept.start registry f input earlier start).finish_passed hr hf env .pending hpassed
        nofun
  | @stoppedBetween index context s s₁ why moment stopped =>
      have hkept := (moment.kept hr hf haccounts hlevels).of_interruption? stopped
      exact hkept.interrupt hr hf env (moment.length_eq ▸ moment.gatesPassed hr hf) why
  | @stoppedInside index context s s₁ s₂ step expected why moment quiet due stopped =>
      -- The call that was stopped is written down, without an entry in the context.
      have hkept := (moment.kept hr hf haccounts hlevels).runStep hr hf haccounts hlevels moment
        quiet due stopped
      exact hkept.interrupt hr hf env (moment.length_eq ▸ moment.gatesPassed hr hf) why
  | @failed index context context' s s₁ s₂ step expected e moment quiet due failed =>
      have hkept := (moment.kept hr hf haccounts hlevels).runStep hr hf haccounts hlevels moment
        quiet due failed
      have hgates := moment.gatesPassed hr hf
      have hlen := moment.length_eq
      obtain ⟨_, _, hends⟩ := moment.due_ends hr hf due failed
      cases hends with
      | mismatched _ _ => exact hkept.finish_passed hr hf env _ (hlen ▸ hgates) nofun
      | timedOut _ => exact hkept.finish_passed hr hf env _ (hlen ▸ hgates) nofun
      | stepFailed _ => exact hkept.finish_passed hr hf env _ (hlen ▸ hgates) nofun
      | @gateFailed v gate _ _ gated refused =>
          -- The only failure that leaves its step completed, and the only gate that has failed.
          have hstep := (List.getElem?_zip_eq_some.mp due).1
          have hlen' : (context.push step.name (expected.coerce v)).length = index + 1 := by
            rw [Context.length_push, hlen]
          have hrefused : ¬ GatePasses step (context.push step.name (expected.coerce v)) := by
            intro hpasses
            rw [hpasses gate gated] at refused
            exact nomatch refused
          exact hkept.finish hr hf env _ (.of_refused hstep hlen' hkept.length
            (hgates.push (Nat.le_of_eq hlen.symm) _ _) hrefused rfl)
  | @projected context s s₁ output moment quiet output_eq =>
      have hkept := (moment.kept hr hf haccounts hlevels).of_interruption? quiet
      exact hkept.finish_passed hr hf env .succeeded (moment.length_eq ▸ moment.gatesPassed hr hf)
        nofun
  | @unprojected context s s₁ status e moment quiet output_eq =>
      obtain ⟨read, hread, _⟩ := moment.projectOutputs_eq_ok hr hf
      exact nomatch hread.symm.trans output_eq

end

/-! ## Levels -/

section

variable {registry : Registry} (hr : registry.Sound) (env : Surroundings σ)
include hr

/-- A run through targets that write down their calls is written down itself. -/
theorem runWith_audited {invoke : Invoker (Booked σ)} {levels : Nat}
    (haccounts : invoke.Accounts registry levels) {flow : String}
    (hlevels : nestingDepth registry flow ≤ levels + 1) (input : Record) (control : Control)
    (start : σ) (earlier : List Event) :
    Audited registry flow input earlier
      (runWith env.recording.accounting registry invoke flow input control
        ((start, earlier), [])) := by
  rw [nestingDepth] at hlevels
  rw [runWith]
  cases hf : registry.flows.get? flow with
  | some f =>
      -- The run begins with no calls, behind the events that were there before.
      rw [hf] at hlevels
      exact (execute_ends env.recording.accounting invoke control f input _).audited hr hf haccounts
        hlevels
  | none =>
      have hlog : (Account.run flow input ⟨.pending, .empty, .error (.unknownFlow flow)⟩ []).log
          registry = [.runFinished flow (RunError.unknownFlow flow).label 0] := by
        rw [Account.log, Account.logCalls_nil, List.nil_append]
        rfl
      exact ⟨.unknown hf, congrArg (earlier ++ ·) hlog.symm⟩

/-- **Targets write down their calls**, as far as the levels reach: a table its evaluation, a flow
    the account of a run whose own targets are one level below. -/
theorem accountingInvoker_accounts (levels : Nat) :
    (accountingInvoker env.recording registry levels).Accounts registry levels := by
  intro target signature record control s hs hlevels
  induction levels, target using levels_induction generalizing signature record control s with
  | table levels table =>
      obtain ⟨t, ht, _⟩ := Option.map_eq_some_iff.mp hs
      have hevaluate : evaluate env.recording registry table record s.1
          = (t.evaluate record,
            env.recording.record (.ofEvaluation table (t.evaluate record)) s.1) := by
        rw [evaluate, ht]
      have hfaithful : (Account.table table record (t.evaluate record)).Faithful registry :=
        .table ht fun _ ha => Table.isFirst_of_evaluate ha
      rw [accountingInvoker, hevaluate]
      refine ⟨.table table record (t.evaluate record), ⟨rfl, rfl, hfaithful, ?_, rfl⟩, rfl⟩
      rw [Account.log]
      rfl
  | spent flow =>
      -- No registered flow is so flat.
      obtain ⟨f, hf, rfl⟩ := Option.map_eq_some_iff.mp hs
      have hpos := hr.nestingDepth_pos hf
      have hzero : f.facts.nestingDepth ≤ 0 := hlevels
      omega
  | flow levels flow ih =>
      obtain ⟨f, hf, rfl⟩ := Option.map_eq_some_iff.mp hs
      have hdepth : nestingDepth registry flow ≤ levels + 1 := by
        rw [nestingDepth, hf]
        exact hlevels
      have hinside : (accountingInvoker env.recording registry levels).Accounts registry levels :=
        fun target signature record control s hs hlevels =>
          ih target signature record control s hs hlevels
      have haudited := runWith_audited hr env hinside hdepth record control s.1.1 s.1.2
      exact ⟨_, ⟨rfl, rfl, haudited.faithful, haudited.events, rfl⟩, rfl⟩

end

/-- **Audited runs.**  A run leaves an account behind that is true on every level, and the events
    that it records are EXACTLY the log of this account: call by call the log of the target, behind
    it the completed step and its gate if there is something to be said of them, and at last its
    own end.  That is so for every flow, also for an unknown one, and however the run ends. -/
theorem run_audited (limits : Limits) (ds : List Definition) (env : Surroundings σ) (flow : String)
    (input : Record) (control : Control) (s : σ) :
    ∃ calls, accountedRun env.recording (.ofDefinitions limits ds) flow input control (s, [])
          = ((run env (.ofDefinitions limits ds) flow input control s).1,
              ((run env (.ofDefinitions limits ds) flow input control s).2,
                eventsOf env (.ofDefinitions limits ds) flow input control s), calls)
        ∧ (Account.run flow input (run env (.ofDefinitions limits ds) flow input control s).1
            calls).Faithful (.ofDefinitions limits ds)
        ∧ eventsOf env (.ofDefinitions limits ds) flow input control s
          = (Account.run flow input (run env (.ofDefinitions limits ds) flow input control s).1
              calls).log (.ofDefinitions limits ds) := by
  have hr := Registry.sound_ofDefinitions limits ds
  generalize Registry.ofDefinitions limits ds = registry at hr ⊢
  have haudited := runWith_audited hr env (accountingInvoker_accounts hr env _)
    (Nat.le_succ (nestingDepth registry flow)) input control s []
  have hrecorded := run_eq_recording env registry flow input control s []
  have haccounted := run_eq_accountedRun env.recording registry flow input control (s, [])
  rw [eventsOf, hrecorded, haccounted]
  refine ⟨(accountedRun env.recording registry flow input control (s, [])).2.2, rfl,
    haudited.faithful, ?_⟩
  have hevents := haudited.events
  rw [List.nil_append] at hevents
  exact hevents

/-- The events of a visit: two runs, one inside the other, and the table at the bottom. -/
example :
    eventsOf .still (.ofDefinitions .default Registry.visitDefinitions) "visit" ofAge (.new ⟨0⟩) ()
      = [.tableEvaluated "age" (some (0, "adult")) "matched",
          .stepCompleted "gate" "adult" 0, .gateEvaluated "gate" "adult" 0 "adult" true,
          .runFinished "gate" "succeeded" 1,
          .stepCompleted "visit" "gate" 0, .runFinished "visit" "succeeded" 1] := by
  rfl

end Verdict.Run
