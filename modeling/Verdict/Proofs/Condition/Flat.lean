/-
  Flat conditions — what is left of a condition when its text is all that is known of it.

  1. **Program** — `flat` replaces a node without parts by its constant and a node with one part by
     that part, and takes the parts of a node of the SAME operator for its own.  The text of a
     condition shows none of this.

  2. **Form** — the nodes of a flat condition have two parts at least, and no part is a node of the
     operator around it (`flat_eq_node`).

  3. **Nothing else changes** — leaves, trace, binding and text are those of the condition; depth
     and size are no greater.
-/
import Verdict.Proofs.Condition.Operator

namespace Verdict.Condition

variable {α : Type}

/-! ## The program -/

/-- The parts that a condition is for an operator around it: those of a node of the operator, or
    itself. -/
def Operator.parts : Operator → Condition α → List (Condition α)
  | .and, .all cs => cs
  | .or, .any cs => cs
  | _, c => [c]

/-- A condition made of parts: none are the unit, one is itself. -/
def Operator.join (op : Operator) : List (Condition α) → Condition α
  | [] => .constant op.unit
  | [c] => c
  | c :: d :: cs => op.node (c :: d :: cs)

mutual

/-- The condition without degenerate nodes, and with no node directly under its own operator. -/
def flat : Condition α → Condition α
  | constant b => constant b
  | leaf t => leaf t
  | not c => not c.flat
  | all cs => Operator.and.join (flatParts .and cs)
  | any cs => Operator.or.join (flatParts .or cs)

/-- The parts of flat conditions for an operator. -/
def flatParts (op : Operator) : List (Condition α) → List (Condition α)
  | [] => []
  | c :: cs => op.parts c.flat ++ flatParts op cs

end

namespace Operator

theorem parts_node (op : Operator) (cs : List (Condition α)) : op.parts (op.node cs) = cs := by
  cases op <;> rfl

theorem parts_of_ne {op : Operator} {c : Condition α} (h : ∀ cs, c ≠ op.node cs) :
    op.parts c = [c] := by
  cases op <;> cases c <;> first | rfl | exact absurd rfl (h _)

/-- For an operator a condition is a node of it, with the parts of that node, or one part. -/
theorem parts_cases (op : Operator) (c : Condition α) :
    (∃ ps, c = op.node ps ∧ op.parts c = ps)
      ∨ (∀ ps, c ≠ op.node ps) ∧ op.parts c = [c] := by
  by_cases hnode : ∃ ps, c = op.node ps
  · obtain ⟨ps, rfl⟩ := hnode
    exact Or.inl ⟨ps, rfl, op.parts_node ps⟩
  · have hne : ∀ ps, c ≠ op.node ps := fun ps hps => hnode ⟨ps, hps⟩
    exact Or.inr ⟨hne, parts_of_ne hne⟩

theorem join_of_two_le (op : Operator) {cs : List (Condition α)} (h : 2 ≤ cs.length) :
    op.join cs = op.node cs := by
  obtain ⟨c, d, rest, rfl⟩ := exists_of_two_le h
  rfl

end Operator

theorem flatParts_eq (op : Operator) (cs : List (Condition α)) :
    flatParts op cs = cs.flatMap fun c => op.parts c.flat := by
  induction cs with
  | nil => rfl
  | cons c cs ih => rw [flatParts, ih, List.flatMap_cons]

theorem flat_node (op : Operator) (cs : List (Condition α)) :
    (op.node cs).flat = op.join (cs.flatMap fun c => op.parts c.flat) := by
  rw [← flatParts_eq]
  cases op <;> rw [Operator.node, flat]

/-! ## The form -/

/-- Parts are no nodes of the operator, if those of its nodes are none. -/
theorem Operator.ne_node_of_mem_parts {op : Operator} {c p : Condition α}
    (h : ∀ ps, c = op.node ps → ∀ p ∈ ps, ∀ qs, p ≠ op.node qs) (hp : p ∈ op.parts c) :
    ∀ qs, p ≠ op.node qs := by
  rcases op.parts_cases c with ⟨ps, hps, hparts⟩ | ⟨hne, hparts⟩
  · rw [hparts] at hp
    exact h ps hps p hp
  · rw [hparts] at hp
    obtain rfl := List.mem_singleton.mp hp
    exact hne

/-- A part that is the only one is the condition itself, if nodes have two parts at least. -/
theorem Operator.eq_of_mem_parts {op : Operator} {c p : Condition α}
    (h : ∀ ps, c = op.node ps → 2 ≤ ps.length) (hp : p ∈ op.parts c)
    (hlen : (op.parts c).length ≤ 1) : p = c := by
  rcases op.parts_cases c with ⟨ps, hps, hparts⟩ | ⟨_, hparts⟩
  · have htwo := h ps hps
    rw [hparts] at hlen
    omega
  · rw [hparts] at hp
    exact List.mem_singleton.mp hp

/-- **The form.**  A node of a flat condition has two parts at least, and none of them is a node of
    the same operator.  By induction through the parts: what is collected for an operator contains
    no node of it, and one part alone stands for itself. -/
theorem flat_eq_node {c : Condition α} {op : Operator} {ps : List (Condition α)}
    (h : c.flat = op.node ps) : 2 ≤ ps.length ∧ ∀ p ∈ ps, ∀ qs, p ≠ op.node qs := by
  induction c generalizing op ps with
  | constant b => cases op <;> exact nomatch h
  | leaf t => cases op <;> exact nomatch h
  | not c => cases op <;> exact nomatch h
  | node outer cs ih =>
      rw [flat_node] at h
      have hcollected : ∀ p ∈ cs.flatMap fun c => outer.parts c.flat,
          ∀ qs, p ≠ outer.node qs := by
        intro p hp
        obtain ⟨c, hc, hpc⟩ := List.mem_flatMap.mp hp
        exact Operator.ne_node_of_mem_parts (fun qs hqs => (ih c hc hqs).2) hpc
      generalize hparts : (cs.flatMap fun c => outer.parts c.flat) = collected at h hcollected
      rcases collected with _ | ⟨p, _ | ⟨q, rest⟩⟩
      · -- No parts: a constant, which is no node.
        cases op <;> exact nomatch h
      · -- One part alone: it was collected from a single condition, as itself.
        have hp : p = op.node ps := h
        have hmem : p ∈ cs.flatMap fun c => outer.parts c.flat := by
          rw [hparts]
          exact List.mem_singleton_self p
        obtain ⟨c, hc, hpc⟩ := List.mem_flatMap.mp hmem
        have hlen : (outer.parts c.flat).length ≤ 1 := by
          have hone : outer.parts c.flat ∈ cs.map fun c => outer.parts c.flat :=
            List.mem_map.mpr ⟨c, hc, rfl⟩
          have hsub := (List.sublist_flatten_of_mem hone).length_le
          rwa [← List.flatMap_def, hparts] at hsub
        obtain rfl := Operator.eq_of_mem_parts (fun qs hqs => (ih c hc hqs).1) hpc hlen
        exact ih c hc hp
      · -- Two or more: the node is the one that was made of them.
        have hnodes : outer.node (p :: q :: rest) = op.node ps := h
        obtain ⟨rfl, rfl⟩ := Operator.node_inj hnodes
        exact ⟨by simp, hcollected⟩

theorem Operator.parts_flat_ne_nil (op : Operator) (c : Condition α) : op.parts c.flat ≠ [] := by
  rcases op.parts_cases c.flat with ⟨ps, hps, hparts⟩ | ⟨_, hparts⟩
  · rw [hparts]
    rintro rfl
    exact nomatch (flat_eq_node hps).1
  · rw [hparts]
    nofun

/-- A flat condition is made of its parts. -/
theorem Operator.join_parts_flat (op : Operator) (c : Condition α) :
    op.join (op.parts c.flat) = c.flat := by
  rcases op.parts_cases c.flat with ⟨ps, hps, hparts⟩ | ⟨_, hparts⟩
  · rw [hparts, hps, Operator.join_of_two_le op (flat_eq_node hps).1]
  · rw [hparts]
    rfl

theorem flat_node_nil (op : Operator) :
    (op.node ([] : List (Condition α))).flat = .constant op.unit := flat_node op []

theorem flat_node_singleton (op : Operator) (c : Condition α) : (op.node [c]).flat = c.flat := by
  rw [flat_node, List.flatMap_singleton, Operator.join_parts_flat]

theorem length_le_flatMap_parts (op : Operator) (cs : List (Condition α)) :
    cs.length ≤ (cs.flatMap fun c => op.parts c.flat).length := by
  induction cs with
  | nil => exact Nat.le_refl 0
  | cons c cs ih =>
      have hpos := List.length_pos_iff.mpr (op.parts_flat_ne_nil c)
      rw [List.flatMap_cons, List.length_append, List.length_cons]
      omega

/-- A node with two parts at least stays a node. -/
theorem flat_node_of_two_le (op : Operator) {cs : List (Condition α)} (h : 2 ≤ cs.length) :
    (op.node cs).flat = op.node (cs.flatMap fun c => op.parts c.flat) := by
  rw [flat_node, Operator.join_of_two_le op (Nat.le_trans h (length_le_flatMap_parts op cs))]

/-! ## Leaves and trace -/

theorem Operator.leaves_join (op : Operator) (cs : List (Condition α)) :
    (op.join cs).leaves = cs.flatMap leaves := by
  rcases cs with _ | ⟨c, _ | ⟨d, rest⟩⟩
  · rfl
  · rw [List.flatMap_singleton]
    rfl
  · exact leaves_node op _

theorem Operator.leaves_parts (op : Operator) (c : Condition α) :
    (op.parts c).flatMap leaves = c.leaves := by
  rcases op.parts_cases c with ⟨ps, hps, hparts⟩ | ⟨_, hparts⟩
  · rw [hparts, hps, leaves_node]
  · rw [hparts, List.flatMap_singleton]

/-- **The leaves** are those of the condition, in their order: neither taking a node's parts for its
    own nor leaving out a degenerate node loses a leaf or moves one. -/
theorem leaves_flat (c : Condition α) : c.flat.leaves = c.leaves := by
  induction c with
  | constant b => rfl
  | leaf t => rfl
  | not c ih => rw [flat, leaves, ih, leaves]
  | node op cs ih =>
      rw [flat_node, Operator.leaves_join, leaves_node, List.flatMap_assoc, List.flatMap_def,
        List.flatMap_def]
      congr 1
      apply List.map_congr_left
      intro c hc
      rw [Operator.leaves_parts, ih c hc]

theorem Operator.trace_join (truth : α → Bool) (op : Operator) (cs : List (Condition α)) :
    (op.join cs).trace truth = askParts truth op cs := by
  rcases cs with _ | ⟨c, _ | ⟨d, rest⟩⟩
  · rfl
  · exact (askParts_singleton truth op c).symm
  · exact trace_node truth op _

theorem Operator.askParts_parts (truth : α → Bool) (op : Operator) (c : Condition α) :
    askParts truth op (op.parts c) = c.trace truth := by
  rcases op.parts_cases c with ⟨ps, hps, hparts⟩ | ⟨_, hparts⟩
  · rw [hparts, hps, trace_node]
  · rw [hparts, askParts_singleton]

/-- **The trace** is that of the condition: the same answer, after the same questions.  A part that
    was a node of the same operator stops its own row exactly where it would have stopped the row
    around it. -/
theorem trace_flat (truth : α → Bool) (c : Condition α) : c.flat.trace truth = c.trace truth := by
  induction c with
  | constant b => rfl
  | leaf t => rfl
  | not c ih => rw [flat, trace, ih, trace]
  | node op cs ih =>
      rw [flat_node, Operator.trace_join, trace_node]
      -- Part by part, with the questions of a part in place of those of its own parts.
      induction cs with
      | nil => rfl
      | cons c cs ihcs =>
          have hcs := ihcs fun d hd => ih d (List.mem_cons_of_mem _ hd)
          have hc : askParts truth op (op.parts c.flat) = askParts truth op [c] := by
            rw [Operator.askParts_parts, askParts_singleton, ih c (List.mem_cons_self ..)]
          rw [List.flatMap_cons, askParts_append, hcs, hc, ← askParts_append, List.singleton_append]

/-! ## Depth and size -/

theorem Operator.depth_parts {op : Operator} {c p : Condition α} (h : p ∈ op.parts c) :
    p.depth ≤ c.depth := by
  rcases op.parts_cases c with ⟨ps, rfl, hparts⟩ | ⟨_, hparts⟩
  · rw [hparts] at h
    have := (depth_node_le_iff.mp (Nat.le_refl (op.node ps).depth)).2 p h
    omega
  · rw [hparts] at h
    exact Nat.le_of_eq (congrArg depth (List.mem_singleton.mp h))

theorem Operator.depth_join_le {op : Operator} {cs : List (Condition α)} {m : Nat} (hm : 1 ≤ m)
    (h : ∀ c ∈ cs, c.depth + 1 ≤ m) : (op.join cs).depth ≤ m := by
  rcases cs with _ | ⟨c, _ | ⟨d, rest⟩⟩
  · exact Nat.zero_le m
  · have := h c (List.mem_singleton_self c)
    show c.depth ≤ m
    omega
  · exact depth_node_le_iff.mpr ⟨hm, h⟩

/-- **The depth** is no greater.  Parts that are taken over come up by one level; no part goes
    down. -/
theorem depth_flat_le (c : Condition α) : c.flat.depth ≤ c.depth := by
  induction c with
  | constant b => exact Nat.le_refl _
  | leaf t => exact Nat.le_refl _
  | not c ih =>
      rw [flat, depth, depth]
      omega
  | node op cs ih =>
      obtain ⟨hpos, hparts⟩ := depth_node_le_iff.mp (Nat.le_refl (op.node cs).depth)
      rw [flat_node]
      refine Operator.depth_join_le hpos fun p hp => ?_
      obtain ⟨c, hc, hpc⟩ := List.mem_flatMap.mp hp
      have hdeep := Operator.depth_parts hpc
      have hflat := ih c hc
      have hpart := hparts c hc
      omega

theorem Operator.size_parts_le (op : Operator) (c : Condition α) :
    ((op.parts c).map size).sum ≤ c.size := by
  rcases op.parts_cases c with ⟨ps, hps, hparts⟩ | ⟨_, hparts⟩
  · rw [hparts, hps, size_node]
    omega
  · rw [hparts]
    exact Nat.le_refl _

theorem Operator.size_join_le (op : Operator) (cs : List (Condition α)) :
    (op.join cs).size ≤ 1 + (cs.map size).sum := by
  rcases cs with _ | ⟨c, _ | ⟨d, rest⟩⟩
  · exact Nat.le_refl 1
  · show c.size ≤ 1 + (c.size + 0)
    omega
  · exact Nat.le_of_eq (size_node op _)

/-- **The size** is no greater: what is left out are nodes. -/
theorem size_flat_le (c : Condition α) : c.flat.size ≤ c.size := by
  induction c with
  | constant b => exact Nat.le_refl _
  | leaf t => exact Nat.le_refl _
  | not c ih =>
      rw [flat, size, size]
      omega
  | node op cs ih =>
      have hsum : ((cs.flatMap fun c => op.parts c.flat).map size).sum ≤ (cs.map size).sum := by
        induction cs with
        | nil => exact Nat.le_refl _
        | cons c cs ihcs =>
            have hcs := ihcs fun d hd => ih d (List.mem_cons_of_mem _ hd)
            have hc := Nat.le_trans (op.size_parts_le c.flat) (ih c (List.mem_cons_self ..))
            rw [List.flatMap_cons, List.map_append, List.sum_append, List.map_cons, List.sum_cons]
            omega
      rw [flat_node, size_node]
      exact Nat.le_trans (op.size_join_le _) (Nat.add_le_add_left hsum 1)

/-! ## Text -/

/-- How the text binds is left as it is, for a node of no part, of one part, and of more. -/
theorem binding_flat (c : Condition α) : c.flat.binding = c.binding := by
  induction c with
  | constant b => rfl
  | leaf t => rfl
  | not c _ => rfl
  | node op cs ih =>
      rcases cs with _ | ⟨c, _ | ⟨d, rest⟩⟩
      · rw [flat_node_nil, binding_node_nil]
        rfl
      · rw [flat_node_singleton, binding_node_singleton, ih c (List.mem_singleton_self c)]
      · have htwo : 2 ≤ (c :: d :: rest).length := by simp
        rw [flat_node_of_two_le op htwo, binding_node op htwo,
          binding_node op (Nat.le_trans htwo (length_le_flatMap_parts op _))]

theorem Binding.looser_self (b : Binding) : b.looser b = false := by
  cases b <;> rfl

/-- The texts of the parts of a flat condition, one after the other, are its text as a part. -/
theorem Operator.intercalate_parts_flat (spell : α → String) (op : Operator) (c : Condition α) :
    op.separator.intercalate
        ((op.parts c.flat).map fun p => wrapped op.binding p.binding (p.render spell))
      = wrapped op.binding c.flat.binding (c.flat.render spell) := by
  rcases op.parts_cases c.flat with ⟨ps, hps, hparts⟩ | ⟨_, hparts⟩
  · -- A node of the operator binds as the operator does, so it is not wrapped.
    have htwo := (flat_eq_node hps).1
    rw [hparts, hps, ← render_node spell op htwo, binding_node op htwo, wrapped,
      Binding.looser_self]
    rfl
  · rw [hparts, List.map_singleton, String.intercalate_singleton]

/-- Rows that are not empty, with separators inside and between them.  An empty row would leave a
    separator too many. -/
theorem intercalate_flatMap {β γ : Type} (separator : String) (text : γ → String)
    (row : β → List γ) (bs : List β) (h : ∀ b ∈ bs, row b ≠ []) :
    separator.intercalate ((bs.flatMap row).map text)
      = separator.intercalate (bs.map fun b => separator.intercalate ((row b).map text)) := by
  induction bs with
  | nil => rfl
  | cons b bs ih =>
      have hb : (row b).map text ≠ [] :=
        fun heq => h b (List.mem_cons_self ..) (List.map_eq_nil_iff.mp heq)
      have hbs := ih fun b' hb' => h b' (List.mem_cons_of_mem _ hb')
      rcases bs with _ | ⟨b', rest⟩
      · rw [List.flatMap_singleton, List.map_singleton, String.intercalate_singleton]
      · have hrest : ((b' :: rest).flatMap row).map text ≠ [] := by
          intro heq
          rw [List.map_eq_nil_iff, List.flatMap_cons, List.append_eq_nil_iff] at heq
          exact h b' (List.mem_cons_of_mem _ (List.mem_cons_self ..)) heq.1
        have htexts : (b' :: rest).map (fun b => separator.intercalate ((row b).map text)) ≠ [] :=
          nofun
        rw [List.flatMap_cons, List.map_append, String.intercalate_append_of_ne_nil hb hrest, hbs]
        exact (String.intercalate_cons_of_ne_nil htexts).symm

/-- **The text** is that of the condition.  A node of two parts or more is written as its parts with
    the separator between them, and a part that is a node of the same operator as ITS parts with
    the same separator, without a parenthesis: so the text of the one row is that of the other. -/
theorem render_flat (spell : α → String) (c : Condition α) :
    c.flat.render spell = c.render spell := by
  induction c with
  | constant b => rfl
  | leaf t => rfl
  | not c ih => rw [flat, render, ih, binding_flat, render]
  | node op cs ih =>
      rcases cs with _ | ⟨c, _ | ⟨d, rest⟩⟩
      · rw [flat_node_nil, render_node_nil]
      · rw [flat_node_singleton, render_node_singleton, ih c (List.mem_singleton_self c)]
      · -- The row of all collected parts, cut into the rows that they came in.
        have htwo : 2 ≤ (c :: d :: rest).length := by simp
        rw [flat_node_of_two_le op htwo, render_node spell op htwo,
          render_node spell op (Nat.le_trans htwo (length_le_flatMap_parts op _)),
          intercalate_flatMap _ _ _ _ fun b _ => op.parts_flat_ne_nil b]
        congr 1
        apply List.map_congr_left
        intro b hb
        rw [Operator.intercalate_parts_flat, binding_flat, ih b hb]

end Verdict.Condition
