/-
  Traces — all that happens in a run and in the runs inside it, in order.

  1. **Data** — a trace begins where the run is started.  It holds every call of a target before
     the target does anything, and every event together with the state that is left right after it
     was recorded.  Each of them stands on a LEVEL: the run that was started is on the highest one,
     and a run nested in it is one below the run that calls it.

  2. **Program** — `tracedRun` runs the flow with the trace beside the state, which nobody reads.
     Forgetting the trace gives the run as it is (`run_eq_tracedRun`).

  3. **Order** — `Orderly`: a completed step was called before, with no other completed step of its
     level in between; and a run that ends reports as many completed steps as there are since its
     start.  One step adds a call, what lies below the call, and AT MOST one completed step
     (`StepLeaves`); the whole run is built from such steps (`Moment.leaves`).
-/
import Mathlib
import Verdict.Proofs.Run.Moments
import Verdict.Proofs.Run.Projection

namespace Verdict.Run

variable {σ : Type}

/-! ## What happens -/

/-- Something that happens in a run. -/
inductive Happening (σ : Type) where
  /-- The run is started, in this state. -/
  | started (s : σ)
  /-- The run on this level calls a target. -/
  | called (level : Nat) (target : Target)
  /-- The run on this level has recorded an event, which left this state. -/
  | recorded (level : Nat) (event : Event) (s : σ)

/-- All that happens, the first thing first. -/
abbrev Trace (σ : Type) := List (Happening σ)

namespace Happening

/-- Is this a step that the run on `level` has completed?  It adds an entry to the context. -/
def isEntry (level : Nat) : Happening σ → Bool
  | recorded l (.stepCompleted _ _ _) _ => l == level
  | _ => false

/-- If this is a call or a completed step, is it on a level below? -/
def isBelow (level : Nat) : Happening σ → Bool
  | recorded l (.stepCompleted _ _ _) _ => l < level
  | called l _ => l < level
  | _ => true

/-- Does this start a run on `level`? -/
def starts (level : Nat) : Happening σ → Bool
  | started _ => true
  | called l (.flow _) => l == level + 1
  | _ => false

/-- What has to have happened before. -/
def Follows : Happening σ → Trace σ → Prop
  | recorded level (.stepCompleted _ _ _) _, before =>
      ∃ earlier target since, before = earlier ++ called level target :: since
        ∧ since.countP (isEntry level) = 0
  | recorded level (.runFinished _ _ completed) _, before =>
      ∃ earlier start since, before = earlier ++ start :: since ∧ start.starts level = true
        ∧ (∀ h ∈ since, h.isBelow (level + 1) = true)
        ∧ since.countP (isEntry level) = completed
  | _, _ => True

end Happening

/-- **Order.**  Every completed step was called, and every ended run counts its completed steps. -/
def Orderly (trace : Trace σ) : Prop :=
  ∀ before h after, trace = before ++ h :: after → h.Follows before

/-! ## The run beside its trace -/

/-- The surroundings of a run on `level`, with the trace beside their state. -/
def Surroundings.traced (env : Surroundings σ) (level : Nat) : Surroundings (σ × Trace σ) where
  clock s := ((env.clock s.1).1, (env.clock s.1).2, s.2)
  cancelled s flag := env.cancelled s.1 flag
  record event s :=
    (env.record event s.1, s.2 ++ [.recorded level event (env.record event s.1)])

/-- Notes that the run on `level` calls a target. -/
def noteCall (level : Nat) (target : Target) (s : σ × Trace σ) : σ × Trace σ :=
  (s.1, s.2 ++ [.called level target])

/-- Calls registered targets for the run on `level`, and notes it. -/
def tracedInvoker (env : Surroundings σ) (registry : Registry) :
    (level : Nat) → Invoker (σ × Trace σ)
  | level, .table table, input, _, s =>
      match evaluate (env.traced level) registry table input
          (noteCall level (.table table) s) with
      | (.ok answer, s) => (.ok answer.value, s)
      | (.error e, s) => (.error (.evaluation e), s)
  | 0, .flow flow, _, _, s => (.error (.run (.unknownFlow flow)), noteCall 0 (.flow flow) s)
  | level + 1, .flow flow, input, control, s =>
      match runWith (env.traced level) registry (tracedInvoker env registry level) flow input
          control (noteCall (level + 1) (.flow flow) s) with
      | (⟨_, _, .ok output⟩, s) => (.ok (.record output), s)
      | (⟨_, _, .error e⟩, s) => (.error (.run e), s)

/-- Runs a registered flow, and keeps its trace. -/
def tracedRun (env : Surroundings σ) (registry : Registry) (flow : String) (input : Record)
    (control : Control) (s : σ) : Report × σ × Trace σ :=
  let level := nestingDepth registry flow
  runWith (env.traced level) registry (tracedInvoker env registry level) flow input control
    (s, [.started s])

theorem Surroundings.traced_over (env : Surroundings σ) (level : Nat) :
    (env.traced level).Over env Prod.fst where
  clock _ := rfl
  cancelled _ _ := rfl
  record _ _ := rfl

/-- **Every level** with its trace answers as the one without: the call is noted in the part that
    is forgotten, and below it a table is evaluated or a run is started in the same way. -/
theorem tracedInvoker_over (env : Surroundings σ) (registry : Registry) (level : Nat) :
    (tracedInvoker env registry level).Over (invoker env registry level) Prod.fst := by
  intro target input control s
  induction level, target using levels_induction generalizing input control s with
  | table level table =>
      have hover : evaluate env registry table input s.1
          = forgetting Prod.fst (evaluate (env.traced level) registry table input
              (noteCall level (.table table) s)) :=
        evaluate_over (env.traced_over level) registry table input _
      rw [tracedInvoker, invoker, hover]
      cases evaluate (env.traced level) registry table input (noteCall level (.table table) s) with
      | mk result s' => cases result <;> rfl
  | spent flow => rfl
  | flow level flow ih =>
      have hover : runWith env registry (invoker env registry level) flow input control s.1
          = forgetting Prod.fst (runWith (env.traced level) registry
              (tracedInvoker env registry level) flow input control
              (noteCall (level + 1) (.flow flow) s)) :=
        runWith_over (env.traced_over level) ih registry flow input control
          (noteCall (level + 1) (.flow flow) s)
      rw [tracedInvoker, invoker, hover]
      cases runWith (env.traced level) registry (tracedInvoker env registry level) flow input
          control (noteCall (level + 1) (.flow flow) s) with
      | mk report s' =>
          obtain ⟨status, context, outcome⟩ := report
          cases outcome <;> rfl

/-- **Forgetting the trace** gives the run as it is. -/
theorem run_eq_tracedRun (env : Surroundings σ) (registry : Registry) (flow : String)
    (input : Record) (control : Control) (s : σ) :
    run env registry flow input control s
      = forgetting Prod.fst (tracedRun env registry flow input control s) :=
  runWith_over (env.traced_over _) (tracedInvoker_over env registry _) registry flow input control
    (s, [.started s])

/-! ## Rows in order -/

/-- What has happened before everything else makes no difference: what has to have happened is
    looked for backwards, from the end of the row. -/
theorem Happening.Follows.prepend {h : Happening σ} {before : Trace σ} (hfollows : h.Follows before)
    (others : Trace σ) : h.Follows (others ++ before) := by
  cases h with
  | started s => trivial
  | called level target => trivial
  | recorded level event s =>
      cases event with
      | stepCompleted flow step index =>
          obtain ⟨earlier, target, since, rfl, hsince⟩ := hfollows
          exact ⟨others ++ earlier, target, since, (List.append_assoc ..).symm, hsince⟩
      | runFinished flow status completed =>
          obtain ⟨earlier, start, since, rfl, hstart, hbelow, hsince⟩ := hfollows
          exact ⟨others ++ earlier, start, since, (List.append_assoc ..).symm, hstart, hbelow,
            hsince⟩
      | tableEvaluated table rule outcome => trivial
      | gateEvaluated flow step index condition passed => trivial

/-- A member of two rows stands in the first one or in the second one; in either case the rest of
    that row is told. -/
theorem split_append {α : Type} {xs ys before after : List α} {x : α}
    (h : xs ++ ys = before ++ x :: after) :
    (∃ between, xs = before ++ x :: between ∧ after = between ++ ys)
      ∨ ∃ between, before = xs ++ between ∧ ys = between ++ x :: after := by
  rcases List.append_eq_append_iff.mp h with ⟨between, hbefore, hys⟩ | ⟨rest, hxs, hrest⟩
  · exact Or.inr ⟨between, hbefore, hys⟩
  · rcases List.cons_eq_append_iff.mp hrest with ⟨rfl, hys⟩ | ⟨between, rfl, hafter⟩
    · -- The member is the first of the second row.
      exact Or.inr ⟨[], by rw [hxs, List.append_nil, List.append_nil], hys⟩
    · exact Or.inl ⟨between, hxs, hafter⟩

namespace Orderly

theorem nil : Orderly ([] : Trace σ) := by
  intro before h after heq
  cases before <;> cases heq

/-- Two rows in order are in order together, since nothing that has to precede a member of the
    second row is looked for in front of it. -/
theorem append {xs ys : Trace σ} (hxs : Orderly xs) (hys : Orderly ys) : Orderly (xs ++ ys) := by
  intro before h after heq
  rcases split_append heq with ⟨between, hx, _⟩ | ⟨between, rfl, hy⟩
  · exact hxs before h between hx
  · exact (hys between h after hy).prepend xs

theorem snoc {xs : Trace σ} {x : Happening σ} (hxs : Orderly xs) (hx : x.Follows xs) :
    Orderly (xs ++ [x]) := by
  intro before h after heq
  rcases split_append heq with ⟨between, hx, _⟩ | ⟨between, rfl, hy⟩
  · exact hxs before h between hx
  · rcases List.cons_eq_append_iff.mp hy with ⟨rfl, hcons⟩ | ⟨rest, rfl, hnil⟩
    · cases hcons
      rw [List.append_nil]
      exact hx
    · cases rest <;> cases hnil

theorem of_append {xs ys : Trace σ} (h : Orderly (xs ++ ys)) : Orderly xs := by
  intro before x after heq
  refine h before x (after ++ ys) ?_
  rw [heq, List.append_assoc, List.cons_append]

/-- **Where nothing is called**, every level completes at most the one step that it had called.

    The induction is on the row from its end.  A completed step has its call somewhere before it,
    without another completed step of the level in between; the call is not in the row itself, so
    no completed step of the level is in the row before this one. -/
theorem entries_le_one {before after : Trace σ} (h : Orderly (before ++ after))
    (hno : ∀ level target, .called level target ∉ after) (level : Nat) :
    after.countP (Happening.isEntry level) ≤ 1 := by
  induction after using List.reverseRecOn with
  | nil => exact Nat.zero_le 1
  | append_singleton after x ih =>
      rw [← List.append_assoc] at h
      have hle := ih h.of_append fun l target hmem => hno l target (List.mem_append_left _ hmem)
      have hfollows : x.Follows (before ++ after) := h (before ++ after) x [] rfl
      rw [List.countP_append, List.countP_singleton]
      split
      case isFalse => omega
      rename_i hentry
      cases x with
      | started s => cases hentry
      | called l target => cases hentry
      | recorded l event s =>
          cases event with
          | stepCompleted flow step index =>
              obtain rfl : l = level := eq_of_beq hentry
              obtain ⟨earlier, target, since, heq, hsince⟩ := hfollows
              -- The call of this step stands before the row, and so do all earlier steps.
              rcases split_append heq with ⟨between, _, hall⟩ | ⟨between, _, hafter⟩
              · rw [hall, List.countP_append] at hsince
                omega
              · refine absurd ?_ (hno l target)
                rw [hafter]
                exact List.mem_append_left _ (List.mem_append_right _ (List.mem_cons_self ..))
          | _ => cases hentry

end Orderly

theorem Happening.isBelow_succ {level : Nat} {h : Happening σ} (hbelow : h.isBelow level = true) :
    h.isBelow (level + 1) = true := by
  cases h with
  | started s => rfl
  | called l target => exact decide_eq_true (Nat.lt_succ_of_lt (of_decide_eq_true hbelow))
  | recorded l event s =>
      cases event with
      | stepCompleted flow step index =>
          exact decide_eq_true (Nat.lt_succ_of_lt (of_decide_eq_true hbelow))
      | _ => rfl

/-- Below a level there are no completed steps of that level. -/
theorem countP_isEntry_of_below {level : Nat} {trace : Trace σ}
    (h : ∀ x ∈ trace, x.isBelow level = true) :
    trace.countP (Happening.isEntry level) = 0 := by
  rw [List.countP_eq_zero]
  intro x hx hentry
  have hbelow := h x hx
  cases x with
  | started s => cases hentry
  | called l target => cases hentry
  | recorded l event s =>
      cases event with
      | stepCompleted flow step index =>
          have hlevel : l = level := eq_of_beq hentry
          have hless : l < level := of_decide_eq_true hbelow
          omega
      | _ => cases hentry

/-! ## What calls, steps and runs leave in a trace -/

/-- What a call on `level` leaves besides itself. -/
structure CallLeaves (level : Nat) (target : Target) (inner : Trace σ) : Prop where
  orderly : Orderly (.called level target :: inner)
  below : ∀ h ∈ inner, h.isBelow level = true

/-- What a run on `level` leaves that has completed so many steps. -/
structure RunLeaves (level completed : Nat) (left : Trace σ) : Prop where
  orderly : Orderly left
  below : ∀ h ∈ left, h.isBelow (level + 1) = true
  entries : left.countP (Happening.isEntry level) = completed

namespace RunLeaves

variable {level completed : Nat} {left inner : Trace σ} {target : Target}

theorem start : RunLeaves level 0 ([] : Trace σ) where
  orderly := .nil
  below := nofun
  entries := rfl

/-- A call adds what lies below it, and no completed step of the run's own. -/
theorem call (h : RunLeaves level completed left) (hcall : CallLeaves level target inner) :
    RunLeaves level completed (left ++ .called level target :: inner) where
  orderly := h.orderly.append hcall.orderly
  below := by
    rw [List.forall_mem_append, List.forall_mem_cons]
    exact ⟨h.below, decide_eq_true (Nat.lt_succ_self level),
      fun x hx => Happening.isBelow_succ (hcall.below x hx)⟩
  entries := by
    have hinner := countP_isEntry_of_below hcall.below
    rw [List.countP_append, List.countP_cons_of_neg Bool.false_ne_true, h.entries, hinner,
      Nat.add_zero]

/-- A step that completes adds one entry of the run's own, right behind its call. -/
theorem complete (h : RunLeaves level completed left) (hcall : CallLeaves level target inner)
    (flow step : String) (index : Nat) (s : σ) :
    RunLeaves level (completed + 1)
      (left ++ .called level target :: inner
        ++ [.recorded level (.stepCompleted flow step index) s]) where
  orderly :=
    (h.call hcall).orderly.snoc ⟨left, target, inner, rfl, countP_isEntry_of_below hcall.below⟩
  below := by
    rw [List.forall_mem_append, List.forall_mem_singleton]
    exact ⟨(h.call hcall).below, decide_eq_true (Nat.lt_succ_self level)⟩
  entries := by
    have hentry : Happening.isEntry level
        (.recorded level (.stepCompleted flow step index) s) = true := beq_self_eq_true level
    rw [List.countP_append, (h.call hcall).entries, List.countP_singleton, if_pos hentry]

/-- What a gate has said is no completed step. -/
theorem gate (h : RunLeaves level completed left) (flow step : String) (index : Nat)
    (condition : String) (passed : Bool) (s : σ) :
    RunLeaves level completed
      (left ++ [.recorded level (.gateEvaluated flow step index condition passed) s]) where
  orderly := h.orderly.snoc trivial
  below := by
    rw [List.forall_mem_append, List.forall_mem_singleton]
    exact ⟨h.below, rfl⟩
  entries := by
    have hno : ¬ Happening.isEntry level
        (.recorded level (.gateEvaluated flow step index condition passed) s) = true :=
      Bool.false_ne_true
    rw [List.countP_append, h.entries, List.countP_singleton, if_neg hno, Nat.add_zero]

/-- A run is in order together with its start and its end. -/
theorem finished (h : RunLeaves level completed left) {start : Happening σ}
    (hstart : start.starts level = true) (flow : String) (outcome : Except RunError Record)
    (s : σ) :
    Orderly (start :: left ++ [.recorded level (.ofOutcome flow completed outcome) s]) := by
  have hfirst : Orderly [start] := by
    refine Orderly.nil.snoc ?_
    cases start with
    | started s => trivial
    | called l target => trivial
    | recorded l event s => cases hstart
  refine (hfirst.append h.orderly).snoc ?_
  cases outcome <;> exact ⟨[], start, left, rfl, hstart, h.below, h.entries⟩

end RunLeaves

/-- What one step leaves, depending on what it comes to. -/
inductive StepLeaves (level : Nat) (flow : String) (index : Nat) (step : Step)
    (context : Context) : StepEnd → Trace σ → Prop
  | unbound {e : RunError} : StepLeaves level flow index step context (.failed context e) []
  | interrupted {inner : Trace σ} {why : Interruption}
      (called : CallLeaves level step.target inner) :
      StepLeaves level flow index step context (.interrupted why)
        (.called level step.target :: inner)
  | failed {inner : Trace σ} {e : RunError} (called : CallLeaves level step.target inner) :
      StepLeaves level flow index step context (.failed context e)
        (.called level step.target :: inner)
  | ungated {inner : Trace σ} {v : Value} (s : σ) (called : CallLeaves level step.target inner) :
      StepLeaves level flow index step context (.completed (context.push step.name v))
        (.called level step.target :: inner
          ++ [.recorded level (.stepCompleted flow step.name index) s])
  | passed {inner : Trace σ} {v : Value} (s s' : σ) (condition : String)
      (called : CallLeaves level step.target inner) :
      StepLeaves level flow index step context (.completed (context.push step.name v))
        (.called level step.target :: inner
          ++ [.recorded level (.stepCompleted flow step.name index) s]
          ++ [.recorded level (.gateEvaluated flow step.name index condition true) s'])
  | refused {inner : Trace σ} {v : Value} {e : RunError} (s s' : σ) (condition : String)
      (called : CallLeaves level step.target inner)
      (failing : ¬ GatePasses step (context.push step.name v)) :
      StepLeaves level flow index step context (.failed (context.push step.name v) e)
        (.called level step.target :: inner
          ++ [.recorded level (.stepCompleted flow step.name index) s]
          ++ [.recorded level (.gateEvaluated flow step.name index condition false) s'])

/-- A step completed by the run itself is not one of those below it. -/
theorem CallLeaves.ne_entry {level : Nat} {target : Target} {inner : Trace σ}
    {flow step : String} {index : Nat} {s : σ} (h : CallLeaves level target inner) :
    .recorded level (.stepCompleted flow step index) s
      ∉ (.called level target :: inner : Trace σ) := by
  intro hmem
  rcases List.mem_cons.mp hmem with heq | hinner
  · cases heq
  · have hless : level < level := of_decide_eq_true (h.below _ hinner)
    omega

/-- The one completed step behind a call is the step whose call it is. -/
theorem CallLeaves.index_eq {level index k : Nat} {target : Target} {inner : Trace σ}
    {flow step id name : String} {s s' : σ} (h : CallLeaves level target inner)
    (hmem : .recorded level (.stepCompleted id name k) s ∈ (.called level target :: inner
      ++ [.recorded level (.stepCompleted flow step index) s'] : Trace σ)) : k = index := by
  rcases List.mem_append.mp hmem with hcall | hentry
  · exact absurd hcall h.ne_entry
  · cases List.mem_singleton.mp hentry
    rfl

/-- A step that leaves a completed step has added its result, and it is completed unless its gate
    fails. -/
theorem StepLeaves.entry {level index k : Nat} {flow id name : String} {step : Step}
    {context : Context} {ending : StepEnd} {left : Trace σ} {s : σ}
    (h : StepLeaves level flow index step context ending left)
    (hmem : .recorded level (.stepCompleted id name k) s ∈ left) :
    k = index ∧ ∃ v, ending = .completed (context.push step.name v)
      ∨ ∃ e, ending = .failed (context.push step.name v) e
        ∧ ¬ GatePasses step (context.push step.name v) := by
  cases h with
  | unbound => cases hmem
  | interrupted called => exact absurd hmem called.ne_entry
  | failed called => exact absurd hmem called.ne_entry
  | ungated s' called => exact ⟨called.index_eq hmem, _, Or.inl rfl⟩
  | passed s' s'' condition called =>
      rcases List.mem_append.mp hmem with hstep | hgate
      · exact ⟨called.index_eq hstep, _, Or.inl rfl⟩
      · cases List.mem_singleton.mp hgate
  | refused s' s'' condition called failing =>
      rcases List.mem_append.mp hmem with hstep | hgate
      · exact ⟨called.index_eq hstep, _, Or.inr ⟨_, rfl, failing⟩⟩
      · cases List.mem_singleton.mp hgate

/-- **A step** adds as many completed steps to the trace as entries to the context: none if it ends
    at its bindings or in its call, one if its result was stored, also if its gate then fails. -/
theorem RunLeaves.step {level index : Nat} {flow : String} {step : Step} {context : Context}
    {left stepLeft : Trace σ} {ending : StepEnd} (h : RunLeaves level context.length left)
    (hstep : StepLeaves level flow index step context ending stepLeft) :
    RunLeaves level (ending.contextAfter context).length (left ++ stepLeft) := by
  cases hstep with
  | unbound =>
      rw [List.append_nil]
      exact h
  | interrupted called => exact h.call called
  | failed called => exact h.call called
  | ungated s called =>
      rw [StepEnd.contextAfter, Context.length_push, ← List.append_assoc]
      exact h.complete called flow step.name index s
  | passed s s' condition called =>
      rw [StepEnd.contextAfter, Context.length_push, ← List.append_assoc, ← List.append_assoc]
      exact (h.complete called flow step.name index s).gate flow step.name index condition true s'
  | refused s s' condition called =>
      rw [StepEnd.contextAfter, Context.length_push, ← List.append_assoc, ← List.append_assoc]
      exact (h.complete called flow step.name index s).gate flow step.name index condition false s'

/-- An invoker for runs on `level` that notes its calls. -/
def Invoker.Notes (invoke : Invoker (σ × Trace σ)) (level : Nat) : Prop :=
  ∀ target input control s, ∃ inner,
    (invoke target input control s).2.2 = s.2 ++ .called level target :: inner
      ∧ CallLeaves level target inner

section

variable {env : Surroundings σ} {invoke : Invoker (σ × Trace σ)} {level : Nat}

/-! ## Stage by stage -/

/-- Reading the clock leaves no trace. -/
theorem trace_of_passes {s s' : σ × Trace σ} (h : Passes (env.traced level) s s') :
    s'.2 = s.2 :=
  h.view_eq Prod.snd fun _ => rfl

theorem trace_of_interruption? {control : Control} {s s' : σ × Trace σ}
    {why : Option Interruption} (h : interruption? (env.traced level) control s = (why, s')) :
    s'.2 = s.2 :=
  trace_of_passes (.of_interruption? h)

variable (hinvoke : invoke.Notes level)
include hinvoke

/-- **One call** leaves itself and what lies below it, and nothing of the level it is made on. -/
theorem call_leaves (control : Control) (step : Step) (input : Record) (s : σ × Trace σ) :
    ∃ inner, (call (env.traced level) invoke control step input s).2.2
        = s.2 ++ .called level step.target :: inner
      ∧ CallLeaves level step.target inner := by
  obtain ⟨handed, s₁, _, hbefore, hafter⟩ :=
    call_passes (env.traced level) invoke control step input s
  obtain ⟨inner, hinner, hcall⟩ := hinvoke step.target input handed s₁
  refine ⟨inner, ?_, hcall⟩
  rw [trace_of_passes hafter, hinner, trace_of_passes hbefore]

/-- **One step** leaves what its end calls for.  The state before and the state behind each event
    are named, because a trace holds them. -/
theorem runStep_leaves {control : Control} {flow : String} {input : Record} {index : Nat}
    {step : Step} {expected : ValueType} {context : Context} {ending : StepEnd}
    {s s' : σ × Trace σ}
    (h : runStep (env.traced level) invoke control flow input index step expected context s
      = (ending, s')) :
    ∃ left, s'.2 = s.2 ++ left ∧ StepLeaves level flow index step context ending left := by
  have hs' : s' = (runStep (env.traced level) invoke control flow input index step expected context
      s).2 := by rw [h]
  have hending : ending = (runStep (env.traced level) invoke control flow input index step expected
      context s).1 := by rw [h]
  rw [hs', hending, runStep]
  cases bindInputs step index input context with
  | error e => exact ⟨[], (List.append_nil _).symm, .unbound⟩
  | ok bound =>
      dsimp only
      obtain ⟨inner, hinner, hcall⟩ := call_leaves hinvoke control step bound s
      generalize call (env.traced level) invoke control step bound s = called at hinner
      obtain ⟨ending, s'⟩ := called
      have hleft : s'.2 = s.2 ++ .called level step.target :: inner := hinner
      cases ending with
      | interrupted why => exact ⟨_, hleft, .interrupted hcall⟩
      | timedOut budget => exact ⟨_, hleft, .failed hcall⟩
      | failed cause => exact ⟨_, hleft, .failed hcall⟩
      | value v =>
          dsimp only
          split
          case isFalse => exact ⟨_, hleft, .failed hcall⟩
          -- The event of the completed step, and after it that of the gate, if there is one.
          obtain ⟨s₁, hs₁⟩ : ∃ s₁, s₁ = (env.traced level).record
              (.stepCompleted flow step.name index) s' := ⟨_, rfl⟩
          have hentry : s₁.2 = s.2 ++ (.called level step.target :: inner
              ++ [.recorded level (.stepCompleted flow step.name index) s₁.1]) := by
            rw [← List.append_assoc, ← hleft, hs₁]
            rfl
          rw [← hs₁, askGate]
          cases hgate : step.gate with
          | none => exact ⟨_, hentry, .ungated s₁.1 hcall⟩
          | some gate =>
              have hasked : ∀ passed : Bool, ((env.traced level).record
                  (.gateEvaluated flow step.name index gate.text passed) s₁).2
                    = s.2 ++ (.called level step.target :: inner
                      ++ [.recorded level (.stepCompleted flow step.name index) s₁.1]
                      ++ [.recorded level (.gateEvaluated flow step.name index gate.text passed)
                        (env.record (.gateEvaluated flow step.name index gate.text passed)
                          s₁.1)]) := by
                intro passed
                rw [← List.append_assoc, ← hentry]
                rfl
              dsimp only
              split
              · -- The gate holds.
                rename_i hholds
                rw [hholds]
                exact ⟨_, hasked true, .passed s₁.1 _ gate.text hcall⟩
              · -- The gate does not hold, of the context with the result already in it.
                rename_i hfails
                refine ⟨_, hasked _, ?_⟩
                rw [Bool.eq_false_iff.mpr hfails]
                exact .refused s₁.1 _ gate.text hcall fun hpasses => hfails (hpasses gate hgate)

/-! ## The whole run -/

variable {control : Control} {f : AdmittedFlow} {input : Record} {start : σ × Trace σ}

/-- At every moment of a run its trace has one completed step for every entry of the context. -/
theorem Moment.leaves {index : Nat} {context : Context} {s : σ × Trace σ}
    (h : Moment (env.traced level) invoke control f input start index context s) :
    ∃ left, s.2 = start.2 ++ left ∧ RunLeaves level context.length left := by
  induction h with
  | start conforming => exact ⟨[], (List.append_nil _).symm, .start⟩
  | next before quiet due completed ih =>
      obtain ⟨left, hleft, hrun⟩ := ih
      obtain ⟨stepLeft, hstep, hleaves⟩ := runStep_leaves hinvoke completed
      rw [trace_of_interruption? quiet, hleft, List.append_assoc] at hstep
      exact ⟨_, hstep, hrun.step hleaves⟩

/-- **A finished run** leaves its trace, and its end.  Every end is one event behind what the last
    moment has left, and behind what the step that was due has left, if it was run. -/
theorem Ends.leaves {result : Report × σ × Trace σ}
    (h : Ends (env.traced level) invoke control f input start result) :
    ∃ left, result.2.2 = start.2 ++ left
        ++ [.recorded level
          (.ofOutcome f.flow.id result.1.context.length result.1.outcome) result.2.1]
      ∧ RunLeaves level result.1.context.length left := by
  have hfinish : ∀ {s : σ × Trace σ} {left : Trace σ} {status : Status} {context : Context}
      {outcome : Except RunError Record}, s.2 = start.2 ++ left →
      (finish (env.traced level) f.flow.id status context outcome s).2.2 = start.2 ++ left
        ++ [.recorded level (.ofOutcome f.flow.id context.length outcome)
          (finish (env.traced level) f.flow.id status context outcome s).2.1] := by
    intro s left status context outcome hs
    rw [← hs]
    rfl
  cases h with
  | refused violated => exact ⟨[], hfinish (List.append_nil _).symm, .start⟩
  | stoppedBetween moment stopped =>
      obtain ⟨left, hleft, hrun⟩ := moment.leaves hinvoke
      rw [← trace_of_interruption? stopped] at hleft
      exact ⟨left, hfinish hleft, hrun⟩
  | stoppedInside moment quiet due stopped =>
      obtain ⟨left, hleft, hrun⟩ := moment.leaves hinvoke
      obtain ⟨stepLeft, hstep, hleaves⟩ := runStep_leaves hinvoke stopped
      rw [trace_of_interruption? quiet, hleft, List.append_assoc] at hstep
      exact ⟨_, hfinish hstep, hrun.step hleaves⟩
  | failed moment quiet due failed =>
      obtain ⟨left, hleft, hrun⟩ := moment.leaves hinvoke
      obtain ⟨stepLeft, hstep, hleaves⟩ := runStep_leaves hinvoke failed
      rw [trace_of_interruption? quiet, hleft, List.append_assoc] at hstep
      exact ⟨_, hfinish hstep, hrun.step hleaves⟩
  | projected moment quiet output_eq =>
      obtain ⟨left, hleft, hrun⟩ := moment.leaves hinvoke
      rw [← trace_of_interruption? quiet] at hleft
      exact ⟨left, hfinish hleft, hrun⟩
  | unprojected moment quiet output_eq =>
      obtain ⟨left, hleft, hrun⟩ := moment.leaves hinvoke
      rw [← trace_of_interruption? quiet] at hleft
      exact ⟨left, hfinish hleft, hrun⟩

variable (env) in
/-- A started run leaves its trace and its end, also if the flow is unknown. -/
theorem runWith_leaves (registry : Registry) (flow : String) (input : Record) (control : Control)
    (s : σ × Trace σ) :
    ∃ left name, (runWith (env.traced level) registry invoke flow input control s).2.2
        = s.2 ++ left ++ [.recorded level (.ofOutcome name
            (runWith (env.traced level) registry invoke flow input control s).1.context.length
            (runWith (env.traced level) registry invoke flow input control s).1.outcome)
          (runWith (env.traced level) registry invoke flow input control s).2.1]
      ∧ RunLeaves level
          (runWith (env.traced level) registry invoke flow input control s).1.context.length
          left := by
  unfold runWith
  cases registry.flows.get? flow with
  | none =>
      refine ⟨[], flow, ?_, .start⟩
      rw [List.append_nil]
      rfl
  | some f =>
      obtain ⟨left, hleft, hrun⟩ :=
        (execute_ends (env.traced level) invoke control f input s).leaves hinvoke
      exact ⟨left, f.flow.id, hleft, hrun⟩

end

/-! ## All levels -/

theorem Orderly.called (level : Nat) (target : Target) :
    Orderly [(Happening.called level target : Happening σ)] :=
  Orderly.nil.snoc trivial

theorem tracedInvoker_table (env : Surroundings σ) (registry : Registry) (level : Nat)
    (table : String) (input : Record) (control : Control) (s : σ × Trace σ) :
    ∃ inner, (tracedInvoker env registry level (.table table) input control s).2.2
        = s.2 ++ .called level (.table table) :: inner
      ∧ CallLeaves level (.table table) inner := by
  have hevent : ∀ (result : Except EvaluationError Answer) (s' : σ),
      CallLeaves level (.table table) [.recorded level (.ofEvaluation table result) s'] := by
    intro result s'
    constructor
    · refine Orderly.snoc (Orderly.called level (.table table)) ?_
      cases result <;> trivial
    · rw [List.forall_mem_singleton]
      cases result <;> rfl
  rw [tracedInvoker]
  cases hresult : evaluate (env.traced level) registry table input
      (noteCall level (.table table) s) with
  | mk result s' =>
      have hleft : s'.2 = s.2 ++ .called level (.table table)
          :: [.recorded level (.ofEvaluation table result) s'.1] := by
        cases hresult
        exact List.append_assoc ..
      cases result <;> exact ⟨_, hleft, hevent _ _⟩

/-- **Every level notes its calls.**  A nested run stands one level below the call that starts it;
    it begins at this call and ends with its own event, and so it is in order as a whole. -/
theorem tracedInvoker_notes (env : Surroundings σ) (registry : Registry) (level : Nat) :
    (tracedInvoker env registry level).Notes level := by
  intro target input control s
  induction level, target using levels_induction generalizing input control s with
  | table level table => exact tracedInvoker_table env registry level table input control s
  | spent flow => exact ⟨[], rfl, .called 0 (.flow flow), nofun⟩
  | flow level flow ih =>
      obtain ⟨left, name, hleft, hrun⟩ := runWith_leaves env ih registry flow input control
        (noteCall (level + 1) (.flow flow) s)
      have hstarts : (Happening.called (level + 1) (.flow flow) : Happening σ).starts level
          = true := beq_self_eq_true (level + 1)
      rw [tracedInvoker]
      generalize runWith (env.traced level) registry (tracedInvoker env registry level) flow
        input control (noteCall (level + 1) (.flow flow) s) = result at hleft hrun
      obtain ⟨⟨status, context, outcome⟩, s'⟩ := result
      have hinner : CallLeaves (level + 1) (.flow flow)
          (left ++ [.recorded level (.ofOutcome name context.length outcome) s'.1]) := by
        refine ⟨hrun.finished hstarts name outcome s'.1, ?_⟩
        rw [List.forall_mem_append, List.forall_mem_singleton]
        exact ⟨hrun.below, by cases outcome <;> rfl⟩
      have hs' : s'.2 = s.2 ++ .called (level + 1) (.flow flow)
          :: (left ++ [.recorded level (.ofOutcome name context.length outcome) s'.1]) := by
        rw [hleft, noteCall, List.append_assoc, List.append_assoc, List.singleton_append]
      cases outcome <;> exact ⟨_, hs', hinner⟩

/-- The traced run of a registered flow ends as every run does. -/
theorem tracedRun_ends {registry : Registry} {flow : String} {f : AdmittedFlow}
    (hf : registry.flows.get? flow = some f) (env : Surroundings σ) (input : Record)
    (control : Control) (s : σ) :
    Ends (env.traced (nestingDepth registry flow))
      (tracedInvoker env registry (nestingDepth registry flow)) control f input (s, [.started s])
      (tracedRun env registry flow input control s) := by
  rw [tracedRun, runWith, hf]
  exact execute_ends ..

/-- The trace of a run: its start, all that happens in between, and its end. -/
structure TraceOf (level : Nat) (start : σ) (report : Report) (finish : σ) (trace : Trace σ) :
    Prop where
  /-- The end reports as many completed steps as the context has entries. -/
  whole : ∃ left flow, trace = .started start :: left
    ++ [.recorded level (.ofOutcome flow report.context.length report.outcome) finish]
  /-- All that happens is in order. -/
  orderly : Orderly trace

/-- **Every run leaves its trace**, whatever the surroundings do: it begins where the run is
    started, it is in order, and it ends with the run's own event, which counts its completed steps.
    -/
theorem tracedRun_traceOf (env : Surroundings σ) (registry : Registry) (flow : String)
    (input : Record) (control : Control) (s : σ) :
    TraceOf (nestingDepth registry flow) s (tracedRun env registry flow input control s).1
      (tracedRun env registry flow input control s).2.1
      (tracedRun env registry flow input control s).2.2 := by
  obtain ⟨left, name, hleft, hrun⟩ := runWith_leaves env
    (tracedInvoker_notes env registry (nestingDepth registry flow)) registry flow input control
    (s, [.started s])
  have hstarts : (Happening.started s).starts (nestingDepth registry flow) = true := rfl
  refine ⟨⟨left, name, hleft⟩, ?_⟩
  rw [tracedRun, hleft]
  exact hrun.finished hstarts name _ _

end Verdict.Run
