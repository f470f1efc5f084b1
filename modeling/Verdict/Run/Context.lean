/-
  Contexts — the results of the steps completed so far, in the order of their completion.

  A gate reads the context: the first name of its path is the name of a step, the rest leads into
  the step's result.

  Core only.
-/
import Verdict.Value

namespace Verdict.Run

/-- Completed steps with their results, the first one first. -/
structure Context where
  entries : List (String × Value)

namespace Context

/-- The context before the first step. -/
def empty : Context := ⟨[]⟩

/-- The context with one more completed step. -/
def push (c : Context) (step : String) (value : Value) : Context :=
  ⟨c.entries ++ [(step, value)]⟩

/-- The result of a step. -/
def get? (c : Context) (step : String) : Option Value :=
  (c.entries.find? (·.1 == step)).map (·.2)

/-- How many steps are completed. -/
def length (c : Context) : Nat := c.entries.length

/-- The step completed last. -/
def last? (c : Context) : Option String := c.entries.getLast?.map (·.1)

/-- What a gate finds at a path. -/
def lookup (c : Context) (p : FieldPath) : Option Value :=
  (c.get? p.head.text).bind (·.at? p.restNames)

end Context

end Verdict.Run
