/-
  Deadlines — when a control that was narrowed again and again has to stop.

  1. **Rows of budgets** — `Control.narrow` narrows a control by a row of budgets, each one from an
     instant of its own.  The instants need not be in order.

  2. **Law** — `deadline_narrow`: what remains is the EARLIEST of the deadline and the ends of the
     budgets, as far as the clock can show these.  A budget that ends beyond the clock leaves no
     trace.

  3. **Use** — a control is overdue from its deadline on (`isOverdue_iff`), so a narrowed one is
     overdue as soon as the control it was made from is, or one of the budgets has ended
     (`isOverdue_narrow_iff`).

  Core only.
-/
import Verdict.Run.Control

namespace Verdict.Run

/-! ## Rows of budgets -/

/-- The control narrowed by a row of budgets, each one from its instant on. -/
def Control.narrow (c : Control) (cuts : List (Instant × Duration)) : Control :=
  cuts.foldl (fun d cut => d.within cut.1 cut.2) c

/-- The instants at which the budgets of a row end, as far as the clock can show them. -/
def finishes (cuts : List (Instant × Duration)) : List Instant :=
  (cuts.map fun cut => cut.1 + cut.2).filter (· < Instant.beyond)

/-! ## Ends of budgets -/

/-- The first budget of a row has an end in it if the clock can show it. -/
theorem finishes_cons (now : Instant) (budget : Duration) (cuts : List (Instant × Duration)) :
    finishes ((now, budget) :: cuts) = (now.after? budget).toList ++ finishes cuts := by
  unfold finishes Instant.after?
  rw [List.map_cons, List.filter_cons]
  by_cases hshown : now + budget < Instant.beyond
  · -- The clock can show it.
    rw [if_pos hshown, if_pos (decide_eq_true hshown)]
    rfl
  · -- It lies beyond, and leaves nothing.
    rw [if_neg hshown, if_neg (by rwa [decide_eq_true_eq])]
    rfl

/-- What stands in the row of ends is the end of a budget. -/
theorem mem_finishes_iff {cuts : List (Instant × Duration)} {finish : Instant} :
    finish ∈ finishes cuts ↔
      ∃ cut ∈ cuts, cut.1 + cut.2 < Instant.beyond ∧ cut.1 + cut.2 = finish := by
  rw [finishes, List.mem_filter, List.mem_map, decide_eq_true_eq]
  constructor
  · rintro ⟨⟨cut, hcut, rfl⟩, hshown⟩
    exact ⟨cut, hcut, hshown, rfl⟩
  · rintro ⟨cut, hcut, hshown, rfl⟩
    exact ⟨⟨cut, hcut, rfl⟩, hshown⟩

/-- No end can be shown iff all of them lie beyond the clock. -/
theorem finishes_eq_nil_iff {cuts : List (Instant × Duration)} :
    finishes cuts = [] ↔ ∀ cut ∈ cuts, Instant.beyond ≤ cut.1 + cut.2 := by
  simp only [finishes, List.filter_eq_nil_iff, List.forall_mem_map, decide_eq_true_eq, Nat.not_lt]

namespace Control

/-! ## The law -/

theorem flag_within (c : Control) (now : Instant) (budget : Duration) :
    (c.within now budget).flag = c.flag := by
  unfold within
  split <;> rfl

theorem flag_narrow (c : Control) (cuts : List (Instant × Duration)) :
    (c.narrow cuts).flag = c.flag := by
  induction cuts generalizing c with
  | nil => rfl
  | cons cut cuts ih => rw [narrow, List.foldl_cons, ← narrow, ih, flag_within]

/-- **The earliest counts**: of the deadline that was there and of the ends of the budgets.  The
    induction is along the budgets: the first of them makes another control, whose deadline then is
    the one that was there. -/
theorem deadline_narrow (c : Control) (cuts : List (Instant × Duration)) :
    (c.narrow cuts).deadline = (c.deadline.toList ++ finishes cuts).min? := by
  induction cuts generalizing c with
  | nil =>
      show c.deadline = (c.deadline.toList ++ []).min?
      rw [List.append_nil]
      cases c.deadline <;> rfl
  | cons cut cuts ih =>
      obtain ⟨now, budget⟩ := cut
      rw [narrow, List.foldl_cons, ← narrow, ih, finishes_cons, within]
      -- The minimum of a row is taken from the left, and so are the budgets.
      cases hdeadline : c.deadline with
      | none =>
          cases now.after? budget with
          | none => dsimp only; rw [hdeadline]; rfl
          | some finish => rfl
      | some deadline =>
          cases now.after? budget with
          | none => dsimp only; rw [hdeadline]; rfl
          | some finish => rfl

/-- No deadline is left iff there was none, and all budgets end beyond the clock. -/
theorem deadline_narrow_eq_none_iff {c : Control} {cuts : List (Instant × Duration)} :
    (c.narrow cuts).deadline = none ↔
      c.deadline = none ∧ ∀ cut ∈ cuts, Instant.beyond ≤ cut.1 + cut.2 := by
  rw [deadline_narrow, List.min?_eq_none_iff, List.append_eq_nil_iff, finishes_eq_nil_iff,
    Option.toList_eq_nil_iff]

/-! ## Overdue controls -/

theorem isOverdue_iff {c : Control} {now : Instant} :
    c.isOverdue now = true ↔ ∃ deadline, c.deadline = some deadline ∧ deadline ≤ now := by
  unfold isOverdue
  cases c.deadline with
  | none => exact ⟨nofun, fun ⟨_, h, _⟩ => by cases h⟩
  | some deadline =>
      rw [decide_eq_true_eq]
      exact ⟨fun h => ⟨deadline, rfl, h⟩, fun ⟨_, heq, h⟩ => by cases heq; exact h⟩

/-- The minimum of a row has passed iff one of its entries has. -/
theorem exists_min?_le_iff {xs : List Instant} {now : Instant} :
    (∃ least, xs.min? = some least ∧ least ≤ now) ↔ ∃ x ∈ xs, x ≤ now := by
  constructor
  · rintro ⟨least, hleast, hle⟩
    exact ⟨least, List.min?_mem hleast, hle⟩
  · rintro ⟨x, hx, hle⟩
    cases hleast : xs.min? with
    | none =>
        rw [List.min?_eq_none_iff.mp hleast] at hx
        cases hx
    | some least =>
        have hfirst := (List.min?_eq_some_iff.mp hleast).2 x hx
        exact ⟨least, rfl, Nat.le_trans hfirst hle⟩

/-- A narrowed control is overdue iff the control was, or a budget that the clock can show has
    ended. -/
theorem isOverdue_narrow_iff {c : Control} {cuts : List (Instant × Duration)} {now : Instant} :
    (c.narrow cuts).isOverdue now = true ↔
      c.isOverdue now = true ∨
        ∃ cut ∈ cuts, cut.1 + cut.2 < Instant.beyond ∧ cut.1 + cut.2 ≤ now := by
  rw [isOverdue_iff, deadline_narrow, exists_min?_le_iff, isOverdue_iff]
  simp only [List.mem_append, Option.mem_toList, mem_finishes_iff]
  -- The deadline that has passed is the first one of the row, or the end of a budget.
  constructor
  · rintro ⟨x, hdeadline | ⟨cut, hcut, hshown, rfl⟩, hle⟩
    · exact Or.inl ⟨x, hdeadline, hle⟩
    · exact Or.inr ⟨cut, hcut, hshown, hle⟩
  · rintro (⟨deadline, hdeadline, hle⟩ | ⟨cut, hcut, hshown, hle⟩)
    · exact ⟨deadline, Or.inl hdeadline, hle⟩
    · exact ⟨cut.1 + cut.2, Or.inr ⟨cut, hcut, hshown, rfl⟩, hle⟩

/-- A deadline that has passed stays passed. -/
theorem isOverdue_of_le {c : Control} {now now' : Instant} (h : c.isOverdue now = true)
    (hle : now ≤ now') : c.isOverdue now' = true := by
  obtain ⟨deadline, hdeadline, hpassed⟩ := isOverdue_iff.mp h
  exact isOverdue_iff.mpr ⟨deadline, hdeadline, Nat.le_trans hpassed hle⟩

/-- A narrowed control that is overdue was made from one that is, or has met the end of the
    budget. -/
theorem isOverdue_of_within {c : Control} {made now : Instant} {span : Duration}
    (h : (c.within made span).isOverdue now = true) :
    c.isOverdue now = true ∨ made + span ≤ now := by
  have hrow : (c.narrow [(made, span)]).isOverdue now = true := h
  rw [isOverdue_narrow_iff] at hrow
  rcases hrow with hpassed | ⟨cut, hcut, _, hended⟩
  · exact Or.inl hpassed
  · obtain rfl := List.mem_singleton.mp hcut
    exact Or.inr hended

end Control

end Verdict.Run
