/-
  Conditions — boolean trees over tests of the reader's choice.

  1. **Data** — constants, n-ary AND and OR, NOT, and leaves that hold a test.  A condition is DATA:
     one tree type serves the rules of every table and the gates of every flow, whatever its tests
     look at.  AND and OR may have any number of parts, none and one included.

  2. **Measures** — `depth` counts the operators above the deepest leaf, `size` counts all nodes,
     `leaves` lists the tests from left to right.

  Core only.
-/

namespace Verdict

/-- A boolean tree whose leaves are tests of type `α`. -/
inductive Condition (α : Type) where
  | constant (b : Bool)
  | all (parts : List (Condition α))
  | any (parts : List (Condition α))
  | not (part : Condition α)
  | leaf (test : α)

namespace Condition

variable {α : Type}

/-! ## Measures -/

mutual

/-- How many nodes a condition has. -/
def size : Condition α → Nat
  | constant _ => 1
  | leaf _ => 1
  | not c => 1 + c.size
  | all cs => sizeOnto 1 cs
  | any cs => sizeOnto 1 cs

/-- The nodes of all conditions of a list, counted on from `n`. -/
def sizeOnto : Nat → List (Condition α) → Nat
  | n, [] => n
  | n, c :: cs => sizeOnto (n + c.size) cs

end

mutual

/-- How many operators stand above the deepest leaf. -/
def depth : Condition α → Nat
  | constant _ => 0
  | leaf _ => 0
  | not c => 1 + c.depth
  | all cs => 1 + depthOnto 0 cs
  | any cs => 1 + depthOnto 0 cs

/-- The greatest depth in a list of conditions, or `n` if that is greater. -/
def depthOnto : Nat → List (Condition α) → Nat
  | n, [] => n
  | n, c :: cs => depthOnto (max n c.depth) cs

end

mutual

/-- The tests at the leaves, from left to right. -/
def leaves : Condition α → List α
  | constant _ => []
  | leaf t => [t]
  | not c => c.leaves
  | all cs => leavesOf cs
  | any cs => leavesOf cs

/-- The tests at the leaves of the conditions of a list. -/
def leavesOf : List (Condition α) → List α
  | [] => []
  | c :: cs => c.leaves ++ leavesOf cs

end

/-! ## Equality -/

mutual

/-- Equality of conditions, up to the equality of their tests. -/
def beq [BEq α] : Condition α → Condition α → Bool
  | constant a, constant b => a == b
  | leaf t, leaf u => t == u
  | not c, not d => c.beq d
  | all cs, all ds => beqList cs ds
  | any cs, any ds => beqList cs ds
  | _, _ => false

/-- Equality of lists of conditions. -/
def beqList [BEq α] : List (Condition α) → List (Condition α) → Bool
  | [], [] => true
  | c :: cs, d :: ds => c.beq d && beqList cs ds
  | _, _ => false

end

instance [BEq α] : BEq (Condition α) := ⟨beq⟩

/-! ## The measures, part by part -/

theorem leavesOf_eq (cs : List (Condition α)) : leavesOf cs = cs.flatMap leaves := by
  induction cs with
  | nil => rfl
  | cons c cs ih => rw [leavesOf, ih, List.flatMap_cons]

end Condition

end Verdict
