/-
  Eager evaluation — every part of a condition gets its value, whatever the other parts say.

  1. **Specification** — `eager`: the values of ALL parts of a node first, as a row, and only then
     the AND or the OR of that row.  No part is passed over, so this is the plain boolean meaning.

  2. **Theorem** — the evaluations that stop early say the same: `holds_eq_eager` for the fold that
     decides rules and gates, `trace_value` for the one that keeps a trace.
-/
import Verdict.Proofs.Condition.Operator

namespace Verdict.Condition

variable {α : Type}

mutual

/-- The value of a condition, with a value for every part of it. -/
def eager (truth : α → Bool) : Condition α → Bool
  | constant b => b
  | leaf t => truth t
  | not c => !c.eager truth
  | all cs => (eagerParts truth cs).and
  | any cs => (eagerParts truth cs).or

/-- The values of all conditions of a list. -/
def eagerParts (truth : α → Bool) : List (Condition α) → List Bool
  | [] => []
  | c :: cs => c.eager truth :: eagerParts truth cs

end

/-- The value of an operator for the values of all its parts. -/
def Operator.combine : Operator → List Bool → Bool
  | .and => List.and
  | .or => List.or

/-- A first part that is not the unit decides; one that is leaves it to the others. -/
theorem Operator.combine_cons (op : Operator) (b : Bool) (values : List Bool) :
    op.combine (b :: values) = if b = op.unit then op.combine values else b := by
  cases op <;> cases b <;> rfl

theorem eagerParts_eq (truth : α → Bool) (cs : List (Condition α)) :
    eagerParts truth cs = cs.map (eager truth) := by
  induction cs with
  | nil => rfl
  | cons c cs ih => rw [eagerParts, ih, List.map_cons]

theorem eager_node (truth : α → Bool) (op : Operator) (cs : List (Condition α)) :
    (op.node cs).eager truth = op.combine (cs.map (eager truth)) := by
  rw [← eagerParts_eq]
  cases op <;> rw [Operator.node, eager] <;> rfl

/-- The value of a condition depends on nothing but its tests: where two readings agree on its
    leaves they agree on the whole.  By induction through the parts. -/
theorem eager_congr {truth truth' : α → Bool} {c : Condition α}
    (h : ∀ t ∈ c.leaves, truth t = truth' t) : c.eager truth = c.eager truth' := by
  induction c with
  | constant b => rfl
  | leaf t => exact h t (List.mem_singleton_self t)
  | not c ih => rw [eager, eager, ih h]
  | node op cs ih =>
      rw [leaves_node] at h
      rw [eager_node, eager_node]
      refine congrArg op.combine (List.map_congr_left fun c hc => ?_)
      exact ih c hc fun t ht => h t (List.mem_flatMap.mpr ⟨c, hc, ht⟩)

/-! ## The evaluations that stop early -/

/-- The fold goes along the parts and stops at the first that decides; `List.and` and `List.or` say
    the same of the row of all values. -/
theorem holds_node (truth : α → Bool) (op : Operator) (cs : List (Condition α)) :
    (op.node cs).holds truth = op.combine (cs.map (holds truth)) := by
  cases op with
  | and =>
      show (all cs).holds truth = _
      rw [holds]
      induction cs with
      | nil => rfl
      | cons c cs ih => rw [allHold, ih]; rfl
  | or =>
      show (any cs).holds truth = _
      rw [holds]
      induction cs with
      | nil => rfl
      | cons c cs ih => rw [anyHolds, ih]; rfl

/-- Asked one after the other, the parts come to the value of all of them together. -/
theorem askParts_value (truth : α → Bool) (op : Operator) (cs : List (Condition α)) :
    (askParts truth op cs).1 = op.combine (cs.map fun c => (c.trace truth).1) := by
  induction cs with
  | nil => cases op <;> rfl
  | cons c cs ih =>
      -- Either way the first part is asked; whether the others are depends on its value.
      rw [List.map_cons, Operator.combine_cons, ← ih, askParts]
      cases c.trace truth with
      | mk b asked => by_cases hb : b = op.unit <;> simp [hb]

/-- **Stopping early changes nothing** for the fold of a condition.  A part that is passed over
    could only have said what the value is already. -/
theorem holds_eq_eager (truth : α → Bool) (c : Condition α) : c.holds truth = c.eager truth := by
  induction c with
  | constant b => rfl
  | leaf t => rfl
  | not c ih => rw [holds, eager, ih]
  | node op cs ih =>
      rw [holds_node, eager_node]
      exact congrArg op.combine (List.map_congr_left ih)

/-- **Stopping early changes nothing** for the answer that comes with a trace. -/
theorem trace_value (truth : α → Bool) (c : Condition α) : (c.trace truth).1 = c.eager truth := by
  induction c with
  | constant b => rfl
  | leaf t => rfl
  | not c ih => rw [trace, eager, ← ih]
  | node op cs ih =>
      rw [trace_node, askParts_value, eager_node]
      exact congrArg op.combine (List.map_congr_left ih)

end Verdict.Condition
