/-
  Paths — the components of a file path.

  A path is split at its slashes.  Empty components, and components that are a single dot, name no
  place of their own and are dropped.

  Core only.
-/
import Verdict.Text.Split

namespace Verdict.Text

/-- The components of a file path. -/
def pathComponents (path : String) : List String :=
  ((splitAt '/' path.toList).map String.ofList).filter fun piece => piece ≠ "" ∧ piece ≠ "."

end Verdict.Text
