/-
  Narrowing — a control that is made from another one can only stop a run earlier.

  1. **Handles** — a handle is the flag of the control that it was taken from.  Using it (`Raises`)
     raises this flag and leaves all others as they are.

  2. **Specification** — `Stricter`: what a control and the one that it was narrowed to have to do
     with each other, at any time and in any surroundings.  The loop over the steps of a flow
     decides by it whether a step has timed out or the whole run has to stop.

  3. **Theorem** — `narrow_stricter`: it holds for every control and every row of budgets, those
     included that end beyond the clock.  The deadlines are those of `deadline_narrow`, and the
     flag is the same all along the row.
-/
import Verdict.Proofs.Run.Budgets

namespace Verdict.Run

variable {σ : Type}

/-! ## The specification -/

/-- Somebody has used a handle of the flag: it is raised now, and no other one was. -/
def Raises (env : Surroundings σ) (flag : Flag) (s s' : σ) : Prop :=
  ∀ other, env.cancelled s' other = true ↔ other = flag ∨ env.cancelled s other = true

/-- The control `d` was made from `c` by a row of budgets, and is nowhere less strict. -/
structure Stricter (env : Surroundings σ) (c : Control) (cuts : List (Instant × Duration))
    (d : Control) : Prop where
  /-- Its deadline is the earliest of the one that was there and of all ends that can be shown. -/
  deadline : d.deadline = (c.deadline.toList ++ finishes cuts).min?
  /-- There is no deadline only if there was none, and no end can be shown. -/
  unlimited : d.deadline = none ↔
    c.deadline = none ∧ ∀ cut ∈ cuts, Instant.beyond ≤ cut.1 + cut.2
  /-- Either both controls are cancelled or none of them is. -/
  cancelled : ∀ s, env.cancelled s c.flag = true ↔ env.cancelled s d.flag = true
  /-- A handle of any control along the row cancels both. -/
  handles : ∀ front, front <+: cuts → ∀ s s', Raises env (c.narrow front).flag s s' →
    env.cancelled s' c.flag = true ∧ env.cancelled s' d.flag = true
  /-- Whenever the control has to stop, so has the narrowed one. -/
  stopped : ∀ s, Stopped env c s → Stopped env d s
  /-- A control that has to stop has to stop ever after. -/
  lasting : ∀ s s', Later env c.flag s s' →
    (Stopped env c s → Stopped env c s') ∧ (Stopped env d s → Stopped env d s')
  /-- If the narrowed control alone exceeds its deadline, then a budget has run out since it was
      set; the other control may be looked at a little later. -/
  spent : ∀ s s', Later env c.flag s s' →
    (interruption? env d s).1 = some .deadlineExceeded → (interruption? env c s').1 = none →
      ∃ cut ∈ cuts, cut.1 + cut.2 ≤ env.now s

/-! ## Controls in a row -/

/-- A control that has to stop has to stop in every later state. -/
theorem Stopped.later {env : Surroundings σ} {c : Control} {s s' : σ} (h : Stopped env c s)
    (hlater : Later env c.flag s s') : Stopped env c s' := by
  rw [stopped_iff] at h ⊢
  rcases h with hraised | hoverdue
  · exact Or.inl (hlater.raised hraised)
  · exact Or.inr (Control.isOverdue_of_le hoverdue hlater.now)

section

variable {env : Surroundings σ} {c : Control} {cuts : List (Instant × Duration)} {s : σ}

/-- A narrowed control has to stop iff the control has to, or a budget has run out. -/
theorem stopped_narrow_iff :
    Stopped env (c.narrow cuts) s ↔
      Stopped env c s
        ∨ ∃ cut ∈ cuts, cut.1 + cut.2 < Instant.beyond ∧ cut.1 + cut.2 ≤ env.now s := by
  rw [stopped_iff, stopped_iff, Control.flag_narrow, Control.isOverdue_narrow_iff, or_assoc]

/-- What makes the narrowed control stop, and not the control, is a budget. -/
theorem spent_of_stopped_narrow (h : Stopped env (c.narrow cuts) s) (hfree : ¬ Stopped env c s) :
    ∃ cut ∈ cuts, cut.1 + cut.2 ≤ env.now s := by
  obtain ⟨cut, hcut, _, hended⟩ := (stopped_narrow_iff.mp h).resolve_left hfree
  exact ⟨cut, hcut, hended⟩

end

/-- **Narrowing.**  Whatever the surroundings do, a control that was narrowed by a row of budgets is
    stricter than the control that it was made from: it has the earliest deadline of all, shares the
    flag, stops whenever the other one does and never less, and if it alone exceeds its deadline
    then a budget has run out. -/
theorem Control.narrow_stricter (env : Surroundings σ) (c : Control)
    (cuts : List (Instant × Duration)) : Stricter env c cuts (c.narrow cuts) where
  deadline := c.deadline_narrow cuts
  unlimited := deadline_narrow_eq_none_iff
  cancelled s := by rw [flag_narrow]
  handles := by
    -- All controls along the row have one flag.
    intro front hfront s s' hraises
    have hraised : env.cancelled s' c.flag = true :=
      (hraises c.flag).mpr (Or.inl (c.flag_narrow front).symm)
    rw [flag_narrow]
    exact ⟨hraised, hraised⟩
  stopped s h := stopped_narrow_iff.mpr (Or.inl h)
  lasting := by
    intro s s' hlater
    have hlater' : Later env (c.narrow cuts).flag s s' := by
      rw [flag_narrow]
      exact hlater
    exact ⟨fun h => h.later hlater, fun h => h.later hlater'⟩
  spent := by
    intro s s' hlater hexceeded hquiet
    have hstopped : Stopped env (c.narrow cuts) s := by
      intro hnone
      cases hexceeded.symm.trans hnone
    -- Had the control had to stop at `s`, then it would have to stop at `s'` as well.
    have hfree : ¬ Stopped env c s := fun h => h.later hlater hquiet
    exact spent_of_stopped_narrow hstopped hfree

/-! ## A budget within a deadline -/

/-- Surroundings in which nothing happens by itself; the state is the time, and the flags that were
    raised. -/
def Surroundings.unmoved : Surroundings (Instant × List Flag) where
  clock s := (s.1, s)
  cancelled s flag := decide (flag ∈ s.2)
  record _ s := s

/-- A control that stops after a second. -/
def oneSecond : Control := (Control.new ⟨0⟩).withTimeout 0 Duration.second

/-- A budget of 20 ms, and then one without an end. -/
def twoCuts : List (Instant × Duration) :=
  [(0, Duration.milliseconds 20), (Duration.milliseconds 5, Duration.longest)]

theorem narrow_stricter_oneSecond :
    (oneSecond.narrow twoCuts).deadline = some (Duration.milliseconds 20)
      ∧ Later .unmoved oneSecond.flag (Duration.milliseconds 20, []) (Duration.milliseconds 30, [])
      ∧ (interruption? .unmoved (oneSecond.narrow twoCuts) (Duration.milliseconds 20, [])).1
          = some .deadlineExceeded
      ∧ (interruption? .unmoved oneSecond (Duration.milliseconds 30, [])).1 = none
      ∧ (∃ cut ∈ twoCuts, cut.1 + cut.2 ≤ Duration.milliseconds 20)
      ∧ Stopped .unmoved (oneSecond.narrow twoCuts) (Duration.milliseconds 30, [])
      ∧ Raises .unmoved (oneSecond.narrow twoCuts).flag (0, []) (0, [⟨0⟩])
      ∧ Surroundings.unmoved.cancelled (0, [⟨0⟩]) oneSecond.flag = true := by
  have h := Control.narrow_stricter .unmoved oneSecond twoCuts
  have hlater : Later .unmoved oneSecond.flag (Duration.milliseconds 20, [])
      (Duration.milliseconds 30, []) := ⟨id, by decide⟩
  have hexceeded : (interruption? .unmoved (oneSecond.narrow twoCuts)
      (Duration.milliseconds 20, [])).1 = some .deadlineExceeded := rfl
  have hquiet : (interruption? .unmoved oneSecond (Duration.milliseconds 30, [])).1 = none := rfl
  have hstopped : Stopped .unmoved (oneSecond.narrow twoCuts) (Duration.milliseconds 20, []) := by
    intro hnone
    cases hexceeded.symm.trans hnone
  have hraises : Raises .unmoved (oneSecond.narrow twoCuts).flag (0, []) (0, [⟨0⟩]) := by
    intro other
    show decide (other ∈ [(⟨0⟩ : Flag)]) = true ↔ _
    rw [decide_eq_true_eq, List.mem_singleton]
    exact ⟨Or.inl, fun h => h.resolve_right nofun⟩
  exact ⟨h.deadline, hlater, hexceeded, hquiet, h.spent _ _ hlater hexceeded hquiet,
    (h.lasting _ _ hlater).2 hstopped, hraises,
    (h.handles twoCuts (List.prefix_refl _) _ _ hraises).1⟩

end Verdict.Run
