/-
  Evaluation — what a condition says when every test has its answer.

  1. **Specification** — `holds`: the boolean fold of the WHOLE tree.  An empty AND is true, an
     empty OR is false.

  2. **Program** — `trace` evaluates from left to right and stops an AND at its first false part
     and an OR at its first true one.  It returns the answer together with the tests it asked, in
     the order in which it asked them, each with its outcome: what was not asked is not in there.

  Core only.
-/
import Verdict.Condition.Basic

namespace Verdict.Condition

variable {α : Type}

mutual

/-- The value of a condition when `truth` gives the value of every test. -/
def holds (truth : α → Bool) : Condition α → Bool
  | constant b => b
  | leaf t => truth t
  | not c => !c.holds truth
  | all cs => allHold truth cs
  | any cs => anyHolds truth cs

/-- Do all conditions of a list hold? -/
def allHold (truth : α → Bool) : List (Condition α) → Bool
  | [] => true
  | c :: cs => c.holds truth && allHold truth cs

/-- Does some condition of a list hold? -/
def anyHolds (truth : α → Bool) : List (Condition α) → Bool
  | [] => false
  | c :: cs => c.holds truth || anyHolds truth cs

end

/-- An answer, and the tests that were asked for it, with their outcomes. -/
abbrev Traced (α : Type) := Bool × List (α × Bool)

mutual

/-- The value of a condition, and the tests asked on the way. -/
def trace (truth : α → Bool) : Condition α → Traced α
  | constant b => (b, [])
  | leaf t => (truth t, [(t, truth t)])
  | not c =>
      let (b, asked) := c.trace truth
      (!b, asked)
  | all cs => traceAll truth cs
  | any cs => traceAny truth cs

/-- Asks the parts of an AND until one is false. -/
def traceAll (truth : α → Bool) : List (Condition α) → Traced α
  | [] => (true, [])
  | c :: cs =>
      let (b, asked) := c.trace truth
      if b then
        let (b', others) := traceAll truth cs
        (b', asked ++ others)
      else (false, asked)

/-- Asks the parts of an OR until one is true. -/
def traceAny (truth : α → Bool) : List (Condition α) → Traced α
  | [] => (false, [])
  | c :: cs =>
      let (b, asked) := c.trace truth
      if b then (true, asked)
      else
        let (b', others) := traceAny truth cs
        (b', asked ++ others)

end

end Verdict.Condition
