/-
  Limits — how large a definition may be to be admitted.

  Five inclusive maxima.  They bind when a definition is ADMITTED; nothing of what is already
  registered is looked at again.

  Core only.
-/
import Verdict.Condition.Bounds

namespace Verdict

/-- The maxima that an admitted definition keeps. -/
structure Limits where
  /-- Rules of one table. -/
  maxRules : Nat
  /-- Steps of one flow. -/
  maxSteps : Nat
  /-- Flows inside flows. -/
  maxNestingDepth : Nat
  /-- Depth of a rule's condition or of a gate. -/
  maxConditionDepth : Nat
  /-- Nodes of a rule's condition or of a gate. -/
  maxConditionNodes : Nat
  deriving DecidableEq

namespace Limits

/-- The limits that apply unless others are set. -/
def default : Limits :=
  { maxRules := 1024
    maxSteps := 256
    maxNestingDepth := 8
    maxConditionDepth := Condition.Bounds.default.maxDepth
    maxConditionNodes := Condition.Bounds.default.maxNodes }

/-- The bounds of conditions. -/
def conditionBounds (limits : Limits) : Condition.Bounds :=
  ⟨limits.maxConditionDepth, limits.maxConditionNodes⟩

end Limits

end Verdict
