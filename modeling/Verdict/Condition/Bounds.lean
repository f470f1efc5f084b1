/-
  Bounds — how deep and how large a condition may be.

  1. **Data** — two numbers, each an inclusive maximum.

  2. **Program** — `check` compares the measures of a condition with them, the depth first.

  Core only.
-/
import Verdict.Condition.Basic

namespace Verdict.Condition

/-- The greatest depth and the greatest number of nodes of a condition. -/
structure Bounds where
  maxDepth : Nat
  maxNodes : Nat
  deriving DecidableEq

/-- How a condition exceeds its bounds. -/
inductive BoundsError where
  | tooDeep (depth max : Nat)
  | tooLarge (nodes max : Nat)
  deriving DecidableEq

namespace Bounds

/-- The bounds that apply unless others are set, and always to conditions read from text. -/
def default : Bounds := ⟨32, 4096⟩

/-- Checks a condition against the bounds. -/
def check {α : Type} (bounds : Bounds) (c : Condition α) : Except BoundsError Unit :=
  if bounds.maxDepth < c.depth then .error (.tooDeep c.depth bounds.maxDepth)
  else if bounds.maxNodes < c.size then .error (.tooLarge c.size bounds.maxNodes)
  else .ok ()

end Bounds

/-- The report of an excess. -/
def BoundsError.message : BoundsError → String
  | tooDeep depth max => s!"requirement tree too deep: {depth} levels (max {max})"
  | tooLarge nodes max => s!"requirement tree too large: {nodes} nodes (max {max})"

/-- A condition passes exactly when both its measures are within bounds. -/
theorem Bounds.check_eq_ok_iff {α : Type} {bounds : Bounds} {c : Condition α} :
    bounds.check c = .ok () ↔ c.depth ≤ bounds.maxDepth ∧ c.size ≤ bounds.maxNodes := by
  unfold Bounds.check
  split
  · exact ⟨nofun, fun h => absurd h.1 (by omega)⟩
  · split
    · exact ⟨nofun, fun h => absurd h.2 (by omega)⟩
    · exact ⟨fun _ => ⟨by omega, by omega⟩, fun _ => rfl⟩

end Verdict.Condition
