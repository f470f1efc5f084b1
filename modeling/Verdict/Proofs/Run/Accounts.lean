/-
  Accounts — how a log grows with its account, call by call.

  1. **Steps** — once its target has answered, a step records its own events and does nothing else
     to the surroundings, whatever these are (`runStep_stores`, `runStep_records`).

  2. **Logs** — an account that is longer by one call has a log that is longer by the log of this
     call and by what is recorded of its step (`logCalls_snoc`).  Results that are stored later on
     are not to be seen in the log of the calls in front (`logCalls_push`).

  3. **Calls and contexts** — a call goes ahead of the context, and its answer follows or does not
     (`Linked.push_call`, `Linked.push_entry`).

  4. **Gates** — a gate is recorded as failed exactly if its step has entered the context and the
     gate did not hold then (`stepEvents_refuse_iff`).  So it is the last gate, or there is none
     (`Gated.of_refused`, `Gated.of_passed`).
-/
import Verdict.Proofs.Run.Log

namespace Verdict.Run

variable {σ : Type}

/-! ## The events of one step -/

/-- A step that has not entered the context has recorded nothing. -/
theorem stepEvents_of_length_le {context : Context} {index : Nat} (h : context.length ≤ index)
    (flow : String) (step : Step) : stepEvents flow context index step = [] :=
  if_neg (Nat.not_lt.mpr h)

/-- A longer context leaves the events of the steps in front as they were. -/
theorem stepEvents_push {context : Context} {index : Nat} (h : index < context.length)
    (flow : String) (step : Step) (name : String) (v : Value) :
    stepEvents flow (context.push name v) index step = stepEvents flow context index step := by
  have hlonger : index < (context.push name v).length := by
    rw [Context.length_push]
    omega
  rw [stepEvents, stepEvents, if_pos h, if_pos hlonger, Context.upTo_push (by omega)]

/-- The step whose result was stored last has asked its gate for the context as it is. -/
theorem stepEvents_length_push (flow : String) (context : Context) (step : Step) (v : Value) :
    stepEvents flow (context.push step.name v) context.length step
      = .stepCompleted flow step.name context.length
        :: gateEvents flow (context.push step.name v) context.length step := by
  have hstored : context.length < (context.push step.name v).length := by
    rw [Context.length_push]
    omega
  rw [stepEvents, if_pos hstored, ← Context.length_push context step.name v, Context.upTo_length]

/-- A gate is recorded as failed exactly if its step has entered the context and it did not hold
    then.  `Context.upTo` is the context as it was when the gate was asked. -/
theorem stepEvents_refuse_iff {flow : String} {context : Context} {index : Nat} {step : Step} :
    (stepEvents flow context index step).any Event.isRefusal = true ↔
      index < context.length ∧ ¬ GatePasses step (context.upTo (index + 1)) := by
  unfold stepEvents gateEvents GatePasses
  split
  · -- The step has entered: its completion is no refusal, so only the gate counts.
    rename_i hin
    have hcompleted : (Event.stepCompleted flow step.name index).isRefusal = false := rfl
    rw [List.any_cons, hcompleted, Bool.false_or]
    cases hgate : step.gate with
    | none => simp
    | some gate =>
        cases hholds : gate.holds (FieldTest.holds (context.upTo (index + 1)).lookup) <;>
          simp [hin, hholds, Event.isRefusal]
  · rename_i hout
    simp [hout]

/-- Records a row of events, the first one first. -/
def Surroundings.recordAll (env : Surroundings σ) (events : List Event) (s : σ) : σ :=
  events.foldl (fun s event => env.record event s) s

theorem Surroundings.recordAll_recording (env : Surroundings σ) (events : List Event)
    (s : σ × List Event) :
    env.recording.recordAll events s = (env.recordAll events s.1, s.2 ++ events) := by
  induction events generalizing s with
  | nil => exact Prod.ext rfl (List.append_nil _).symm
  | cons event events ih =>
      refine (ih (env.recording.record event s)).trans (Prod.ext rfl ?_)
      exact (List.append_assoc s.2 [event] events)

theorem Surroundings.recordAll_accounting (env : Surroundings σ) (events : List Event)
    (s : σ × List Account) :
    env.accounting.recordAll events s = (env.recordAll events s.1, s.2) := by
  induction events generalizing s with
  | nil => rfl
  | cons event events ih => exact ih (env.accounting.record event s)

section

variable {env : Surroundings σ} {flow : String} {step : Step} {index : Nat}

/-- Asking a gate records what it has said, and leaves the context as it is. -/
theorem askGate_records (env : Surroundings σ) (flow : String) (step : Step) (index : Nat)
    (context before : Context) (s : σ) :
    (askGate env flow step index context s).1.contextAfter before = context
      ∧ (askGate env flow step index context s).2
        = env.recordAll (gateEvents flow context index step) s := by
  unfold askGate gateEvents
  cases step.gate with
  | none => exact ⟨rfl, rfl⟩
  | some gate =>
      dsimp only
      split <;> exact ⟨rfl, rfl⟩

variable {invoke : Invoker σ} {control : Control} {expected : ValueType} {input bound : Record}
  {context : Context} {ending : StepEnd} {s s' : σ}

/-- **Once its target was called**, a step leaves the context and the surroundings alone, or it
    stores the value that came out of the call and asks its gate.

    The second is the case of an accepted value, whether the gate then holds or not. -/
theorem runStep_stores (hbound : bindInputs step index input context = .ok bound)
    (h : runStep env invoke control flow input index step expected context s = (ending, s')) :
    ending.contextAfter context = context ∧ s' = (call env invoke control step bound s).2
      ∨ ∃ v, (call env invoke control step bound s).1 = .value v
          ∧ ending.contextAfter context = context.push step.name (expected.coerce v)
          ∧ s' = env.recordAll (.stepCompleted flow step.name index
              :: gateEvents flow (context.push step.name (expected.coerce v)) index step)
            (call env invoke control step bound s).2 := by
  rw [runStep, hbound] at h
  dsimp only at h
  cases hcall : call env invoke control step bound s with
  | mk callEnd s₁ =>
      rw [hcall] at h
      cases callEnd with
      | interrupted why =>
          cases h
          exact Or.inl ⟨rfl, rfl⟩
      | timedOut budget =>
          cases h
          exact Or.inl ⟨rfl, rfl⟩
      | failed cause =>
          cases h
          exact Or.inl ⟨rfl, rfl⟩
      | value v =>
          dsimp only at h
          split at h
          · -- Accepted: stored, recorded, and the gate asked.
            obtain ⟨hcontext, hstate⟩ := askGate_records env flow step index
              (context.push step.name (expected.coerce v)) context
              (env.record (.stepCompleted flow step.name index) s₁)
            rw [h] at hcontext hstate
            exact Or.inr ⟨v, rfl, hcontext, hstate⟩
          · -- Of another type: the step fails, and the value is dropped.
            cases h
            exact Or.inl ⟨rfl, rfl⟩

/-- After its call a step records its events. -/
theorem runStep_records (hbound : bindInputs step context.length input context = .ok bound)
    (h : runStep env invoke control flow input context.length step expected context s
      = (ending, s')) :
    s' = env.recordAll (stepEvents flow (ending.contextAfter context) context.length step)
      (call env invoke control step bound s).2 := by
  rcases runStep_stores hbound h with ⟨hcontext, rfl⟩ | ⟨v, _, hcontext, rfl⟩
  · rw [hcontext, stepEvents_of_length_le (Nat.le_refl _)]
    rfl
  · rw [hcontext, stepEvents_length_push]

end

namespace Account

/-! ## Logs of longer accounts -/

section

variable {registry : Registry} {flow : String} {context : Context}

theorem logCalls_nil (index : Nat) (steps : List Step) :
    logCalls registry flow context index steps [] = [] := by
  cases steps <;> rw [logCalls] <;> exact nofun

/-- **One more call** adds its log, and what is recorded of its step.  The induction is along the
    calls, with the steps beside them. -/
theorem logCalls_snoc {steps : List Step} {calls : List Account} {step : Step}
    (h : steps[calls.length]? = some step) (index : Nat) (call : Account) :
    logCalls registry flow context index steps (calls ++ [call])
      = logCalls registry flow context index steps calls
        ++ (call.log registry ++ stepEvents flow context (index + calls.length) step) := by
  induction calls generalizing index steps with
  | nil =>
      cases steps with
      | nil => exact nomatch h
      | cons first steps =>
          cases h
          rw [List.nil_append, logCalls, logCalls_nil, logCalls_nil, List.append_nil]
          rfl
  | cons first calls ih =>
      cases steps with
      | nil => exact nomatch h
      | cons head steps =>
          have hindex : index + (first :: calls).length = index + 1 + calls.length := by
            rw [List.length_cons]
            omega
          rw [List.cons_append, logCalls, logCalls, ih h, hindex, ← List.append_assoc]

/-- Results of later steps are not to be seen in the log. -/
theorem logCalls_push {index : Nat} {calls : List Account}
    (h : index + calls.length ≤ context.length) (steps : List Step) (name : String) (v : Value) :
    logCalls registry flow (context.push name v) index steps calls
      = logCalls registry flow context index steps calls := by
  induction calls generalizing index steps with
  | nil => rw [logCalls_nil, logCalls_nil]
  | cons first calls ih =>
      rw [List.length_cons] at h
      cases steps with
      | nil => rfl
      | cons head steps =>
          rw [logCalls, logCalls, stepEvents_push (by omega), ih (by omega)]

end

/-! ## Calls and contexts -/

/-- What a step makes of the context: it leaves it as it was, or stores what its call has
    answered. -/
inductive Enters (step : Step) (expected : ValueType) (call : Account) (context : Context) :
    Context → Prop
  | nothing : Enters step expected call context context
  | answer {v : Value} (answered : call.answer = .ok v) :
      Enters step expected call context (context.push step.name (expected.coerce v))

section

variable {f : AdmittedFlow} {input : Record} {context : Context} {calls : List Account}
  {step : Step} {call : Account}

theorem Linked.empty : Linked f input .empty [] where
  called _ _ h := nomatch (List.getElem?_nil).symm.trans h
  entered _ _ _ h := nomatch (List.getElem?_nil).symm.trans h
  ahead := Nat.zero_le _

/-- The call of the next step goes ahead of the context. -/
theorem Linked.push_call (h : Linked f input context calls) (hlen : calls.length = context.length)
    (hstep : f.flow.steps[context.length]? = some step) (htarget : call.target = step.target)
    (hbound : bindInputs step context.length input context = .ok call.input) :
    Linked f input context (calls ++ [call]) where
  called i other hi := by
    rw [List.getElem?_append] at hi
    split at hi
    · exact h.called i other hi
    · -- The new call is the one at the length of the context.
      obtain rfl : i = context.length := by
        have hlt := (List.getElem?_eq_some_iff.mp hi).1
        rw [List.length_singleton] at hlt
        omega
      rw [hlen, Nat.sub_self] at hi
      cases hi
      refine ⟨step, hstep, htarget, ?_⟩
      rw [Context.upTo_length]
      exact hbound
  entered i name v hi := by
    obtain ⟨step, expected, other, w, hs, he, hother, hrest⟩ := h.entered i name v hi
    have hlt := (List.getElem?_eq_some_iff.mp hother).1
    exact ⟨step, expected, other, w, hs, he, by rw [List.getElem?_append_left hlt, hother], hrest⟩
  ahead := by
    rw [List.length_append, List.length_singleton, hlen]

/-- Its answer follows: the entry that is new belongs to the call that was ahead, and the calls in
    front were made with a shorter context, which is still there. -/
theorem Linked.push_entry (h : Linked f input context calls)
    (hlen : calls.length = context.length + 1) {expected : ValueType} {v : Value}
    (hstep : f.flow.steps[context.length]? = some step)
    (hexpected : f.facts.stepOutputs[context.length]? = some expected)
    (hcall : calls[context.length]? = some call) (hanswer : call.answer = .ok v) :
    Linked f input (context.push step.name (expected.coerce v)) calls where
  called i other hi := by
    obtain ⟨step', hs, ht, hb⟩ := h.called i other hi
    have hlt := (List.getElem?_eq_some_iff.mp hi).1
    refine ⟨step', hs, ht, ?_⟩
    rw [Context.upTo_push (by omega)]
    exact hb
  entered i name w hi := by
    change (context.entries ++ [(step.name, expected.coerce v)])[i]? = some (name, w) at hi
    rw [List.getElem?_append] at hi
    split at hi
    · exact h.entered i name w hi
    · obtain rfl : i = context.length := by
        have hlt := (List.getElem?_eq_some_iff.mp hi).1
        rw [List.length_singleton] at hlt
        show i = context.entries.length
        omega
      rw [Context.length, Nat.sub_self] at hi
      cases hi
      exact ⟨step, expected, call, v, hstep, hexpected, hcall, rfl, hanswer, rfl⟩
  ahead := by
    rw [Context.length_push, hlen]
    exact Nat.le_succ _

/-! ## Gates -/

/-- A run whose completed steps have all passed their gates. -/
theorem Gated.of_passed {report : Report}
    (hpassed : GatesPassed f.flow report.context report.context.length)
    (houtcome : ∀ step i condition note,
      report.outcome ≠ .error (.gateFailed step i condition note)) : Gated f report calls := by
  have hnone : ∀ (i : Nat) (step : Step), f.flow.steps[i]? = some step →
      ¬ (stepEvents f.flow.id report.context i step).any Event.isRefusal = true := by
    intro i step hstep hrefusal
    obtain ⟨hi, hfails⟩ := stepEvents_refuse_iff.mp hrefusal
    exact hfails (hpassed i step hi hstep)
  -- Neither is a gate recorded as failed, nor does the run report one.
  refine ⟨fun i step hstep hrefusal => absurd hrefusal (hnone i step hstep), ?_, ?_⟩
  · rintro ⟨i, step, hstep, hrefusal⟩
    exact absurd hrefusal (hnone i step hstep)
  · rintro ⟨name, i, condition, note, heq⟩
    exact absurd heq (houtcome name i condition note)

/-- A run that the gate of its last step has stopped. -/
theorem Gated.of_refused {report : Report} {i : Nat} (hstep : f.flow.steps[i]? = some step)
    (hcontext : report.context.length = i + 1) (hcalls : calls.length = i + 1)
    (hpassed : GatesPassed f.flow report.context i) (hrefused : ¬ GatePasses step report.context)
    {name condition : String} {at' : Nat} {note : Option String}
    (houtcome : report.outcome = .error (.gateFailed name at' condition note)) :
    Gated f report calls where
  last j other hj hrefusal := by
    obtain ⟨hin, hfails⟩ := stepEvents_refuse_iff.mp hrefusal
    rcases Nat.lt_or_ge j i with hlt | hge
    · -- The gates of the steps in front have held.
      exact absurd (hpassed j other hlt hj) hfails
    · omega
  reported := by
    refine ⟨fun _ => ⟨name, at', condition, note, houtcome⟩, fun _ => ⟨i, step, hstep, ?_⟩⟩
    refine stepEvents_refuse_iff.mpr ⟨by omega, ?_⟩
    rw [← hcontext, Context.upTo_length]
    exact hrefused

end

end Account

end Verdict.Run
