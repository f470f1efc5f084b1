/-
  Operators — AND and OR as two cases of one thing.

  1. **Data** — an `Operator` has a node, a value without parts (its UNIT), a binding and a
     separator.  What is true of one operator is true of the other one, so each fact about nodes
     below is stated once.

  2. **Induction** — `alongParts` goes through a condition part by part, with one case for the nodes
     of both operators.

  3. **Measures** — depth, size, leaves, trace and text of a node, in terms of its parts.
-/
import Mathlib
import Verdict.Condition.Evaluation
import Verdict.Condition.Printer

namespace Verdict.Condition

variable {α : Type}

/-- AND, or OR. -/
inductive Operator where
  | and
  | or
  deriving DecidableEq

namespace Operator

/-- The operator applied to parts. -/
def node : Operator → List (Condition α) → Condition α
  | and => .all
  | or => .any

/-- The value of the operator without parts; it decides nothing among others. -/
def unit : Operator → Bool
  | and => true
  | or => false

/-- How tightly the operator binds. -/
def binding : Operator → Binding
  | and => .and
  | or => .or

/-- What stands between the texts of two parts. -/
def separator : Operator → String
  | and => " && "
  | or => " || "

theorem node_inj {op op' : Operator} {cs ds : List (Condition α)} (h : op.node cs = op'.node ds) :
    op = op' ∧ cs = ds := by
  cases op <;> cases op' <;> first | exact ⟨rfl, by cases h; rfl⟩ | exact nomatch h

end Operator

/-- Induction through the parts of a condition.  `Condition.rec` has a motive for rows of conditions
    besides; here it is "all of them", and the cases of AND and OR become one. -/
@[induction_eliminator]
theorem alongParts {motive : Condition α → Prop} (constant : ∀ b, motive (.constant b))
    (leaf : ∀ t, motive (.leaf t)) (not : ∀ c, motive c → motive (.not c))
    (node : ∀ (op : Operator) cs, (∀ c ∈ cs, motive c) → motive (op.node cs)) (c : Condition α) :
    motive c := by
  refine Condition.rec (motive_1 := motive) (motive_2 := fun cs => ∀ c ∈ cs, motive c)
    constant ?_ ?_ not leaf ?_ ?_ c
  · exact fun cs h => node .and cs h
  · exact fun cs h => node .or cs h
  · exact fun c hc => nomatch hc
  · intro c cs hc hcs d hd
    rcases List.mem_cons.mp hd with rfl | hmem
    · exact hc
    · exact hcs d hmem

/-! ## Measures of a node -/

/-- A row is as deep as the deepest of its conditions, or as what it is measured onto. -/
theorem depthOnto_le_iff {n m : Nat} {cs : List (Condition α)} :
    depthOnto n cs ≤ m ↔ n ≤ m ∧ ∀ c ∈ cs, c.depth ≤ m := by
  induction cs generalizing n with
  | nil => exact ⟨fun h => ⟨h, nofun⟩, fun h => h.1⟩
  | cons c cs ih =>
      rw [depthOnto, ih, Nat.max_le, List.forall_mem_cons, and_assoc]

/-- A node is one deeper than its parts, said as a bound: so a limit on the depth can be passed on
    to the parts one level lower. -/
theorem depth_node_le_iff {op : Operator} {cs : List (Condition α)} {m : Nat} :
    (op.node cs).depth ≤ m ↔ 1 ≤ m ∧ ∀ c ∈ cs, c.depth + 1 ≤ m := by
  have hdepth : (op.node cs).depth = 1 + depthOnto 0 cs := by cases op <;> rw [Operator.node, depth]
  rw [hdepth]
  constructor
  · intro h
    obtain ⟨_, hparts⟩ := depthOnto_le_iff.mp (show depthOnto 0 cs ≤ m - 1 by omega)
    refine ⟨by omega, fun c hc => ?_⟩
    have := hparts c hc
    omega
  · rintro ⟨hpos, hparts⟩
    have hle : depthOnto 0 cs ≤ m - 1 := by
      refine depthOnto_le_iff.mpr ⟨Nat.zero_le _, fun c hc => ?_⟩
      have := hparts c hc
      omega
    omega

theorem sizeOnto_eq (n : Nat) (cs : List (Condition α)) :
    sizeOnto n cs = n + (cs.map size).sum := by
  induction cs generalizing n with
  | nil => rfl
  | cons c cs ih => rw [sizeOnto, ih, List.map_cons, List.sum_cons, Nat.add_assoc]

/-- The size of a node is one more than the sizes of its parts together. -/
theorem size_node (op : Operator) (cs : List (Condition α)) :
    (op.node cs).size = 1 + (cs.map size).sum := by
  cases op <;> rw [Operator.node, size, sizeOnto_eq]

theorem leaves_node (op : Operator) (cs : List (Condition α)) :
    (op.node cs).leaves = cs.flatMap leaves := by
  cases op <;> rw [Operator.node, leaves, leavesOf_eq]

/-! ## Asking the parts of a node -/

/-- Asks parts one after the other, until one has another value than the unit. -/
def askParts (truth : α → Bool) (op : Operator) : List (Condition α) → Traced α
  | [] => (op.unit, [])
  | c :: cs =>
      let (b, asked) := c.trace truth
      if b = op.unit then
        let (b', others) := askParts truth op cs
        (b', asked ++ others)
      else (b, asked)

/-- The two walks of the program, one for AND and one for OR, are the walk `askParts`. -/
theorem trace_node (truth : α → Bool) (op : Operator) (cs : List (Condition α)) :
    (op.node cs).trace truth = askParts truth op cs := by
  cases op with
  | and =>
      show (all cs).trace truth = _
      rw [trace]
      induction cs with
      | nil => rfl
      | cons c cs ih =>
          rw [traceAll, askParts, ih]
          cases c.trace truth with
          | mk b asked => cases b <;> rfl
  | or =>
      show (any cs).trace truth = _
      rw [trace]
      induction cs with
      | nil => rfl
      | cons c cs ih =>
          rw [traceAny, askParts, ih]
          cases c.trace truth with
          | mk b asked => cases b <;> rfl

/-- One part alone is asked as itself. -/
theorem askParts_singleton (truth : α → Bool) (op : Operator) (c : Condition α) :
    askParts truth op [c] = c.trace truth := by
  rw [askParts]
  cases c.trace truth with
  | mk b asked =>
      by_cases hb : b = op.unit
      · simp [askParts, hb]
      · simp [hb]

/-- Two rows of parts are asked one after the other: the second one only if the first one has come
    to the unit, that is, has decided nothing. -/
theorem askParts_append (truth : α → Bool) (op : Operator) (cs ds : List (Condition α)) :
    askParts truth op (cs ++ ds)
      = if (askParts truth op cs).1 = op.unit then
          ((askParts truth op ds).1, (askParts truth op cs).2 ++ (askParts truth op ds).2)
        else askParts truth op cs := by
  induction cs with
  | nil => simp [askParts]
  | cons c cs ih =>
      rw [List.cons_append, askParts, askParts, ih]
      cases c.trace truth with
      | mk b asked =>
          -- Does the first part decide?  If not, do the others of its row?
          by_cases hb : b = op.unit
          · by_cases hcs : (askParts truth op cs).1 = op.unit <;> simp [hb, hcs]
          · simp [hb]

/-! ## Text of a node -/

theorem exists_of_two_le {cs : List (Condition α)} (h : 2 ≤ cs.length) :
    ∃ c d rest, cs = c :: d :: rest := by
  rcases cs with _ | ⟨c, _ | ⟨d, rest⟩⟩
  · exact nomatch h
  · exact absurd (Nat.le_of_succ_le_succ h) (Nat.not_succ_le_zero 0)
  · exact ⟨c, d, rest, rfl⟩

theorem renderParts_eq (spell : α → String) (outer : Binding) (cs : List (Condition α)) :
    renderParts spell outer cs = cs.map fun c => wrapped outer c.binding (c.render spell) := by
  induction cs with
  | nil => rfl
  | cons c cs ih => rw [renderParts, ih, List.map_cons]

theorem render_node_nil (spell : α → String) (op : Operator) :
    (op.node []).render spell = (constant op.unit).render spell := by
  cases op <;> rfl

theorem render_node_singleton (spell : α → String) (op : Operator) (c : Condition α) :
    (op.node [c]).render spell = c.render spell := by
  cases op <;> rw [Operator.node, render]

/-- Two parts or more are written with the separator between them, each wrapped if it binds less
    tightly.  A node of one part is written as that part, an empty one as its unit. -/
theorem render_node (spell : α → String) (op : Operator) {cs : List (Condition α)}
    (h : 2 ≤ cs.length) :
    (op.node cs).render spell
      = op.separator.intercalate
          (cs.map fun c => wrapped op.binding c.binding (c.render spell)) := by
  obtain ⟨c, d, rest, rfl⟩ := exists_of_two_le h
  rw [← renderParts_eq]
  cases op <;> rw [Operator.node, render] <;> rfl

theorem binding_node_nil (op : Operator) :
    (op.node ([] : List (Condition α))).binding = .unary := by
  cases op <;> rfl

theorem binding_node_singleton (op : Operator) (c : Condition α) :
    (op.node [c]).binding = c.binding := by
  cases op <;> rw [Operator.node, Condition.binding]

theorem binding_node (op : Operator) {cs : List (Condition α)} (h : 2 ≤ cs.length) :
    (op.node cs).binding = op.binding := by
  obtain ⟨c, d, rest, rfl⟩ := exists_of_two_le h
  cases op <;> rw [Operator.node, Condition.binding] <;> rfl

end Verdict.Condition
