/-
  Occurrences — which tests of a condition are asked, place by place.

  1. **Addresses** — an address leads from the root of a condition to one of its parts, a number for
     every step (`at?`).  One and the same test may stand at many addresses; an OCCURRENCE is a test
     with its address.

  2. **Labels** — a condition evaluates tests of any type, so it evaluates tests that carry their
     addresses as well (`located`).  What `trace` asks of the labelled condition is what it asks of
     the condition itself, and says where (`trace_map`, `map_located`).

  3. **Specification** — `Reached`: at every AND and OR above an address all parts in front have the
     value with which the operator goes on, as the EAGER fold gives it.  This speaks of no order of
     evaluation and of no trace.

  4. **Theorem** — `trace_exact`: the occurrences asked are the ones reached, in the order of the
     leaves; and another reader that answers the tests asked alike is asked the same.
-/
import Verdict.Proofs.Condition.Eager

namespace Verdict.Condition

variable {α β : Type}

/-! ## Addresses -/

/-- The parts right below the root, from left to right. -/
def children : Condition α → List (Condition α)
  | constant _ => []
  | leaf _ => []
  | not c => [c]
  | all cs => cs
  | any cs => cs

/-- The part of a condition at an address: every number chooses one of the parts below, from zero
    on. -/
def at? (c : Condition α) : List Nat → Option (Condition α)
  | [] => some c
  | i :: address => c.children[i]?.bind (·.at? address)

theorem children_node (op : Operator) (cs : List (Condition α)) : (op.node cs).children = cs := by
  cases op <;> rfl

theorem at?_cons_eq_some_iff {c d : Condition α} {i : Nat} {address : List Nat} :
    c.at? (i :: address) = some d
      ↔ ∃ part, c.children[i]? = some part ∧ part.at? address = some d :=
  Option.bind_eq_some_iff

/-- A leaf below a node is a leaf of one of its parts. -/
theorem at?_node_eq_leaf_iff {op : Operator} {cs : List (Condition α)} {address : List Nat}
    {t : α} :
    (op.node cs).at? address = some (.leaf t) ↔
      ∃ i c inner, address = i :: inner ∧ cs[i]? = some c ∧ c.at? inner = some (.leaf t) := by
  constructor
  · intro h
    cases address with
    | nil => cases op <;> cases h
    | cons i inner =>
        obtain ⟨c, hc, hat⟩ := at?_cons_eq_some_iff.mp h
        rw [children_node] at hc
        exact ⟨i, c, inner, rfl, hc, hat⟩
  · rintro ⟨i, c, inner, rfl, hc, hat⟩
    exact at?_cons_eq_some_iff.mpr ⟨c, (children_node op cs).symm ▸ hc, hat⟩

/-- A leaf below a negation is a leaf of the only part there is. -/
theorem at?_not_eq_leaf_iff {c : Condition α} {address : List Nat} {t : α} :
    (not c).at? address = some (.leaf t) ↔
      ∃ inner, address = 0 :: inner ∧ c.at? inner = some (.leaf t) := by
  constructor
  · intro h
    cases address with
    | nil => cases h
    | cons i inner =>
        obtain ⟨part, hpart, hat⟩ := at?_cons_eq_some_iff.mp h
        cases i with
        | zero =>
            cases hpart
            exact ⟨inner, rfl, hat⟩
        | succ i => cases hpart
  · rintro ⟨inner, rfl, hat⟩
    exact at?_cons_eq_some_iff.mpr ⟨c, rfl, hat⟩

theorem at?_leaf_eq_leaf_iff {t u : α} {address : List Nat} :
    (leaf u).at? address = some (.leaf t) ↔ address = [] ∧ u = t := by
  cases address with
  | nil =>
      constructor
      · intro h
        cases h
        exact ⟨rfl, rfl⟩
      · rintro ⟨_, rfl⟩
        rfl
  | cons i inner => exact ⟨nofun, nofun⟩

theorem at?_constant_ne_leaf (b : Bool) (address : List Nat) (t : α) :
    (constant b).at? address ≠ some (.leaf t) := by
  cases address <;> nofun

/-- At every AND and OR above an address, all parts in front have the value that decides nothing:
    they are true at an AND, and false at an OR. -/
def Reached (truth : α → Bool) (c : Condition α) (address : List Nat) : Prop :=
  ∀ (above behind : List Nat) (i : Nat) (op : Operator) (cs : List (Condition α)),
    address = above ++ i :: behind → c.at? above = some (op.node cs) →
      ∀ d ∈ cs.take i, d.eager truth = op.unit

theorem reached_nil (truth : α → Bool) (c : Condition α) : c.Reached truth [] := by
  intro above behind i op cs haddress
  cases above <;> cases haddress

/-- An address is reached if it is reached from the first part on its way, and this part is.  So the
    condition of the root and that of the rest of the way can be asked apart. -/
theorem reached_cons_iff {truth : α → Bool} {c part : Condition α} {i : Nat}
    {address : List Nat} (hpart : c.children[i]? = some part) :
    c.Reached truth (i :: address) ↔
      (∀ (op : Operator) cs, c = op.node cs → ∀ d ∈ cs.take i, d.eager truth = op.unit)
        ∧ part.Reached truth address := by
  constructor
  · intro h
    constructor
    · -- The root is the place above with nothing in front of it.
      rintro op cs rfl
      exact h [] address i op cs rfl rfl
    · intro above behind j op cs haddress hat
      refine h (i :: above) behind j op cs (congrArg (i :: ·) haddress) ?_
      exact at?_cons_eq_some_iff.mpr ⟨part, hpart, hat⟩
  · rintro ⟨hroot, hrest⟩ above behind j op cs haddress hat
    cases above with
    | nil =>
        cases haddress
        cases hat
        exact hroot op cs rfl
    | cons k above =>
        cases haddress
        obtain ⟨other, hother, hat⟩ := at?_cons_eq_some_iff.mp hat
        cases hpart.symm.trans hother
        exact hrest above behind j op cs rfl hat

theorem reached_node_iff {truth : α → Bool} {op : Operator} {cs : List (Condition α)}
    {c : Condition α} {i : Nat} {address : List Nat} (hc : cs[i]? = some c) :
    (op.node cs).Reached truth (i :: address) ↔
      (∀ d ∈ cs.take i, d.eager truth = op.unit) ∧ c.Reached truth address := by
  rw [reached_cons_iff ((children_node op cs).symm ▸ hc)]
  refine and_congr_left' ⟨fun h => h op cs rfl, fun h op' ds heq => ?_⟩
  obtain ⟨rfl, rfl⟩ := Operator.node_inj heq
  exact h

/-! ## Labels -/

mutual

/-- The same condition with other tests at its leaves. -/
def map (f : α → β) : Condition α → Condition β
  | constant b => constant b
  | leaf t => leaf (f t)
  | not c => not (c.map f)
  | all cs => all (mapParts f cs)
  | any cs => any (mapParts f cs)

/-- The same conditions with other tests at their leaves. -/
def mapParts (f : α → β) : List (Condition α) → List (Condition β)
  | [] => []
  | c :: cs => c.map f :: mapParts f cs

end

mutual

/-- The condition with the address of every leaf beside its test, if its root has the address
    `root`. -/
def located (root : List Nat) : Condition α → Condition (List Nat × α)
  | constant b => constant b
  | leaf t => leaf (root, t)
  | not c => not (c.located (root ++ [0]))
  | all cs => all (locatedFrom root 0 cs)
  | any cs => any (locatedFrom root 0 cs)

/-- The parts of a condition with the addresses of their leaves, counted on from `i`. -/
def locatedFrom (root : List Nat) : (i : Nat) → List (Condition α) → List (Condition (List Nat × α))
  | _, [] => []
  | i, c :: cs => c.located (root ++ [i]) :: locatedFrom root (i + 1) cs

end

mutual

/-- Without the labels it is the condition itself. -/
theorem map_located : ∀ (root : List Nat) (c : Condition α), (c.located root).map Prod.snd = c
  | _, constant _ => rfl
  | _, leaf _ => rfl
  | root, not c => congrArg not (map_located (root ++ [0]) c)
  | root, all cs => congrArg all (mapParts_locatedFrom root 0 cs)
  | root, any cs => congrArg any (mapParts_locatedFrom root 0 cs)

theorem mapParts_locatedFrom : ∀ (root : List Nat) (i : Nat) (cs : List (Condition α)),
    mapParts Prod.snd (locatedFrom root i cs) = cs
  | _, _, [] => rfl
  | root, i, c :: cs =>
      List.cons_eq_cons.mpr ⟨map_located (root ++ [i]) c, mapParts_locatedFrom root (i + 1) cs⟩

end

theorem mapParts_eq (f : α → β) (cs : List (Condition α)) : mapParts f cs = cs.map (map f) := by
  induction cs with
  | nil => rfl
  | cons c cs ih => rw [mapParts, ih, List.map_cons]

theorem map_node (f : α → β) (op : Operator) (cs : List (Condition α)) :
    (op.node cs).map f = op.node (cs.map (map f)) := by
  rw [← mapParts_eq]
  cases op <;> rfl

theorem located_node (root : List Nat) (op : Operator) (cs : List (Condition α)) :
    (op.node cs).located root = op.node (locatedFrom root 0 cs) := by
  cases op <;> rfl

/-- The part at an index, with the index at the end of its address. -/
theorem getElem?_locatedFrom (root : List Nat) (i : Nat) (cs : List (Condition α)) (j : Nat) :
    (locatedFrom root i cs)[j]? = cs[j]?.map fun c => c.located (root ++ [i + j]) := by
  induction cs generalizing i j with
  | nil => rfl
  | cons c cs ih =>
      rw [locatedFrom]
      cases j with
      | zero => rfl
      | succ j =>
          rw [List.getElem?_cons_succ, List.getElem?_cons_succ, ih, Nat.add_assoc, Nat.add_comm 1]

theorem getElem?_locatedFrom_eq_some_iff {root : List Nat} {cs : List (Condition α)} {i : Nat}
    {part : Condition (List Nat × α)} :
    (locatedFrom root 0 cs)[i]? = some part ↔
      ∃ c, cs[i]? = some c ∧ c.located (root ++ [i]) = part := by
  rw [getElem?_locatedFrom, Nat.zero_add, Option.map_eq_some_iff]

theorem mem_locatedFrom_iff {root : List Nat} {cs : List (Condition α)}
    {part : Condition (List Nat × α)} :
    part ∈ locatedFrom root 0 cs ↔
      ∃ (i : Nat) (c : Condition α), cs[i]? = some c ∧ c.located (root ++ [i]) = part := by
  simp only [List.mem_iff_getElem?, getElem?_locatedFrom_eq_some_iff]

/-- **Labels change nothing**: a condition with other tests is evaluated like the condition itself,
    with the outcomes of the other tests. -/
theorem trace_map (f : α → β) (truth : β → Bool) (c : Condition α) :
    (c.map f).trace truth
      = ((c.trace fun t => truth (f t)).1,
          (c.trace fun t => truth (f t)).2.map fun e => (f e.1, e.2)) := by
  induction c with
  | constant b => rfl
  | leaf t => rfl
  | not c ih => rw [map, trace, ih, trace]
  | node op cs ih =>
      rw [map_node, trace_node, trace_node]
      induction cs with
      | nil => rfl
      | cons c cs ihcs =>
          obtain ⟨hc, hcs⟩ := List.forall_mem_cons.mp ih
          rw [List.map_cons, askParts, askParts, hc, ihcs hcs]
          dsimp only
          split
          · rw [List.map_append]
          · rfl

/-- A condition has the value that it has with labels. -/
theorem eager_located (truth : α → Bool) (root : List Nat) (c : Condition α) :
    ((c.located root).eager fun o => truth o.2) = c.eager truth := by
  have hmap := congrArg Prod.fst (trace_map Prod.snd truth (c.located root))
  rw [map_located, trace_value, trace_value] at hmap
  exact hmap.symm

/-- The values of the parts are those that they have with labels. -/
theorem map_eager_locatedFrom (truth : α → Bool) (root : List Nat) (i : Nat)
    (cs : List (Condition α)) :
    (locatedFrom root i cs).map (eager fun o => truth o.2) = cs.map (eager truth) := by
  induction cs generalizing i with
  | nil => rfl
  | cons c cs ih => rw [locatedFrom, List.map_cons, List.map_cons, ih, eager_located]

theorem forall_take_locatedFrom_iff {truth : α → Bool} {root : List Nat} {cs : List (Condition α)}
    {i : Nat} {b : Bool} :
    (∀ d ∈ (locatedFrom root 0 cs).take i, (d.eager fun o => truth o.2) = b) ↔
      ∀ d ∈ cs.take i, d.eager truth = b := by
  have hvalues := congrArg (List.take i) (map_eager_locatedFrom truth root 0 cs)
  rw [← List.map_take, ← List.map_take] at hvalues
  rw [← List.forall_mem_map (P := (· = b)), hvalues, List.forall_mem_map]

theorem leaves_map (f : α → β) (c : Condition α) : (c.map f).leaves = c.leaves.map f := by
  induction c with
  | constant b => rfl
  | leaf t => rfl
  | not c ih => exact ih
  | node op cs ih =>
      rw [map_node, leaves_node, leaves_node, List.flatMap_map, List.map_flatMap]
      exact List.flatMap_congr ih

/-! ## Asking the parts of a node -/

/-- **One node.**  A part is asked if all parts in front of it have the value that decides nothing,
    and then what it asks is asked. -/
theorem mem_askParts_iff {truth : α → Bool} {op : Operator} {cs : List (Condition α)}
    {e : α × Bool} :
    e ∈ (askParts truth op cs).2 ↔
      ∃ i c, cs[i]? = some c ∧ (∀ d ∈ cs.take i, d.eager truth = op.unit)
        ∧ e ∈ (c.trace truth).2 := by
  induction cs with
  | nil =>
      constructor
      · intro h
        cases h
      · rintro ⟨i, c, hc, _⟩
        cases hc
  | cons c cs ih =>
      have hvalue := trace_value truth c
      have hfirst : ∀ d ∈ (c :: cs).take 0, d.eager truth = op.unit := List.forall_mem_nil _
      rw [askParts]
      dsimp only
      split
      · -- The first part decides nothing: what is asked are its tests and those of the others.
        rename_i hunit
        rw [hvalue] at hunit
        rw [List.mem_append, ih]
        constructor
        · rintro (hhead | ⟨i, d, hd, hfront, he⟩)
          · exact ⟨0, c, rfl, hfirst, hhead⟩
          · exact ⟨i + 1, d, hd, List.forall_mem_cons.mpr ⟨hunit, hfront⟩, he⟩
        · rintro ⟨i, d, hd, hfront, he⟩
          cases i with
          | zero =>
              cases hd
              exact Or.inl he
          | succ i =>
              exact Or.inr ⟨i, d, hd, (List.forall_mem_cons.mp hfront).2, he⟩
      · -- It decides: the part at any later index has one in front that is not the unit.
        rename_i hdecided
        rw [hvalue] at hdecided
        constructor
        · intro he
          exact ⟨0, c, rfl, hfirst, he⟩
        · rintro ⟨i, d, hd, hfront, he⟩
          cases i with
          | zero =>
              cases hd
              exact he
          | succ i => exact absurd (List.forall_mem_cons.mp hfront).1 hdecided

/-- What is asked are leaves, in their order, each with its outcome.  At a node the leaves of the
    parts stand one row after the other, and asking stops in front of some of the rows. -/
theorem trace_sublist (truth : α → Bool) (c : Condition α) :
    (c.trace truth).2.Sublist (c.leaves.map fun t => (t, truth t)) := by
  induction c with
  | constant b => exact .slnil
  | leaf t => exact .refl _
  | not c ih => exact ih
  | node op cs ih =>
      rw [trace_node, leaves_node, List.map_flatMap]
      induction cs with
      | nil => exact .slnil
      | cons c cs ihcs =>
          obtain ⟨hc, hcs⟩ := List.forall_mem_cons.mp ih
          rw [askParts, List.flatMap_cons]
          dsimp only
          split
          · exact hc.append (ihcs hcs)
          · exact hc.trans (List.sublist_append_left _ _)

/-- **Nothing else counts.**  Whoever answers the tests that are asked alike is asked the same, and
    comes to the same value.  By induction through the parts, and at a node along them. -/
theorem trace_congr {truth truth' : α → Bool} {c : Condition α}
    (h : ∀ e ∈ (c.trace truth).2, truth' e.1 = e.2) : c.trace truth' = c.trace truth := by
  induction c with
  | constant b => rfl
  | leaf t =>
      have ht : truth' t = truth t := h _ (List.mem_singleton_self _)
      rw [trace, trace, ht]
  | not c ih => rw [trace, trace, ih h]
  | node op cs ih =>
      rw [trace_node] at h
      rw [trace_node, trace_node]
      induction cs with
      | nil => rfl
      | cons c cs ihcs =>
          obtain ⟨hc, hcs⟩ := List.forall_mem_cons.mp ih
          rw [askParts] at h
          dsimp only at h
          rw [askParts, askParts]
          -- Whether the parts behind are asked is the same for both, since the first part is.
          by_cases hunit : (c.trace truth).1 = op.unit
          · rw [if_pos hunit] at h
            rw [hc fun e he => h e (List.mem_append_left _ he),
              ihcs hcs fun e he => h e (List.mem_append_right _ he)]
          · rw [if_neg hunit] at h
            rw [hc h]
            dsimp only
            rw [if_neg hunit, if_neg hunit]

/-! ## Occurrences -/

/-- The leaves of a condition with their addresses, from left to right. -/
def occurrences (c : Condition α) : List (List Nat × α) := (c.located []).leaves

/-- The occurrences that `trace` asks, in the order in which it asks them, with their outcomes. -/
def asked (truth : α → Bool) (c : Condition α) : List ((List Nat × α) × Bool) :=
  ((c.located []).trace fun o => truth o.2).2

/-- The labels of a condition are the addresses of its leaves, behind the address of its root.  The
    induction goes through the parts, for every root. -/
theorem mem_leaves_located_iff {root address : List Nat} {t : α} {c : Condition α} :
    (address, t) ∈ (c.located root).leaves ↔
      ∃ inner, address = root ++ inner ∧ c.at? inner = some (.leaf t) := by
  induction c generalizing root with
  | constant b =>
      refine ⟨nofun, ?_⟩
      rintro ⟨inner, _, hat⟩
      exact absurd hat (at?_constant_ne_leaf b inner t)
  | leaf u =>
      rw [located, leaves, List.mem_singleton, Prod.mk.injEq]
      constructor
      · rintro ⟨rfl, rfl⟩
        exact ⟨[], (List.append_nil _).symm, rfl⟩
      · rintro ⟨inner, rfl, hat⟩
        obtain ⟨rfl, rfl⟩ := at?_leaf_eq_leaf_iff.mp hat
        exact ⟨List.append_nil _, rfl⟩
  | not c ih =>
      rw [located, leaves, ih]
      constructor
      · rintro ⟨inner, rfl, hat⟩
        exact ⟨0 :: inner, List.append_assoc .., hat⟩
      · rintro ⟨_, rfl, hat⟩
        obtain ⟨inner, rfl, hat⟩ := at?_not_eq_leaf_iff.mp hat
        exact ⟨inner, List.append_cons .., hat⟩
  | node op cs ih =>
      rw [located_node, leaves_node, List.mem_flatMap]
      constructor
      · rintro ⟨part, hpart, hmem⟩
        obtain ⟨i, c, hc, rfl⟩ := mem_locatedFrom_iff.mp hpart
        obtain ⟨inner, rfl, hat⟩ := (ih c (List.mem_of_getElem? hc)).mp hmem
        refine ⟨i :: inner, List.append_assoc .., at?_node_eq_leaf_iff.mpr ?_⟩
        exact ⟨i, c, inner, rfl, hc, hat⟩
      · rintro ⟨_, rfl, hat⟩
        obtain ⟨i, c, inner, rfl, hc, hat⟩ := at?_node_eq_leaf_iff.mp hat
        exact ⟨_, mem_locatedFrom_iff.mpr ⟨i, c, hc, rfl⟩,
          (ih c (List.mem_of_getElem? hc)).mpr ⟨inner, List.append_cons .., hat⟩⟩

/-- **Asked is reached.**  What `trace` asks of a condition with labels are its leaves at the
    addresses that are reached.  The left side is about a walk that stops early, the right side
    about values only; at a node the two meet in `mem_askParts_iff`. -/
theorem mem_trace_located_iff {truth : α → Bool} {root address : List Nat} {t : α} {b : Bool}
    {c : Condition α} :
    ((address, t), b) ∈ ((c.located root).trace fun o => truth o.2).2 ↔
      b = truth t ∧ ∃ inner, address = root ++ inner ∧ c.at? inner = some (.leaf t)
        ∧ c.Reached truth inner := by
  induction c generalizing root with
  | constant b =>
      refine ⟨nofun, ?_⟩
      rintro ⟨_, inner, _, hat, _⟩
      exact absurd hat (at?_constant_ne_leaf b inner t)
  | leaf u =>
      rw [located, trace, List.mem_singleton, Prod.mk.injEq, Prod.mk.injEq]
      constructor
      · rintro ⟨⟨rfl, rfl⟩, hb⟩
        exact ⟨hb, [], (List.append_nil _).symm, rfl, reached_nil truth _⟩
      · rintro ⟨hb, inner, rfl, hat, _⟩
        obtain ⟨rfl, rfl⟩ := at?_leaf_eq_leaf_iff.mp hat
        exact ⟨⟨List.append_nil _, rfl⟩, hb⟩
  | not c ih =>
      -- A negation asks what its part asks, and has no parts in front of it.
      show _ ∈ ((c.located (root ++ [0])).trace fun o => truth o.2).2 ↔ _
      rw [ih]
      constructor
      · rintro ⟨hb, inner, rfl, hat, hreached⟩
        refine ⟨hb, 0 :: inner, List.append_assoc .., hat, ?_⟩
        refine (reached_cons_iff rfl).mpr ⟨?_, hreached⟩
        intro op cs h
        cases op <;> cases h
      · rintro ⟨hb, _, rfl, hat, hreached⟩
        obtain ⟨inner, rfl, hat⟩ := at?_not_eq_leaf_iff.mp hat
        exact ⟨hb, inner, List.append_cons .., hat, ((reached_cons_iff rfl).mp hreached).2⟩
  | node op cs ih =>
      rw [located_node, trace_node, mem_askParts_iff]
      constructor
      · rintro ⟨i, part, hpart, hfront, hmem⟩
        obtain ⟨c, hc, rfl⟩ := getElem?_locatedFrom_eq_some_iff.mp hpart
        obtain ⟨hb, inner, rfl, hat, hreached⟩ := (ih c (List.mem_of_getElem? hc)).mp hmem
        have hfront := forall_take_locatedFrom_iff.mp hfront
        exact ⟨hb, i :: inner, List.append_assoc ..,
          at?_node_eq_leaf_iff.mpr ⟨i, c, inner, rfl, hc, hat⟩,
          (reached_node_iff hc).mpr ⟨hfront, hreached⟩⟩
      · rintro ⟨hb, _, rfl, hat, hreached⟩
        obtain ⟨i, c, inner, rfl, hc, hat⟩ := at?_node_eq_leaf_iff.mp hat
        obtain ⟨hfront, hreached⟩ := (reached_node_iff hc).mp hreached
        exact ⟨i, _, getElem?_locatedFrom_eq_some_iff.mpr ⟨c, hc, rfl⟩,
          forall_take_locatedFrom_iff.mpr hfront,
          (ih c (List.mem_of_getElem? hc)).mpr ⟨hb, inner, List.append_cons .., hat, hreached⟩⟩

/-- No address is there twice, not even within one condition that asks the same test again. -/
theorem nodup_addresses {root : List Nat} {c : Condition α} :
    ((c.located root).leaves.map Prod.fst).Nodup := by
  induction c generalizing root with
  | constant b => exact .nil
  | leaf t => exact List.nodup_singleton _
  | not c ih => exact ih
  | node op cs ih =>
      rw [located_node, leaves_node, List.map_flatMap, List.nodup_flatMap]
      constructor
      · intro part hpart
        obtain ⟨i, c, hc, rfl⟩ := mem_locatedFrom_iff.mp hpart
        exact ih c (List.mem_of_getElem? hc)
      · -- Two parts of one node have addresses that differ in the number behind the root.
        refine List.pairwise_iff_getElem.mpr fun i j hi hj hlt address hleft hright => ?_
        obtain ⟨c, _, hc⟩ := getElem?_locatedFrom_eq_some_iff.mp (List.getElem?_eq_getElem hi)
        obtain ⟨d, _, hd⟩ := getElem?_locatedFrom_eq_some_iff.mp (List.getElem?_eq_getElem hj)
        rw [← hc] at hleft
        rw [← hd] at hright
        obtain ⟨⟨_, t⟩, ht, rfl⟩ := List.mem_map.mp hleft
        obtain ⟨⟨_, u⟩, hu, heq⟩ := List.mem_map.mp hright
        cases heq
        obtain ⟨inner, haddress, _⟩ := mem_leaves_located_iff.mp ht
        obtain ⟨inner', haddress', _⟩ := mem_leaves_located_iff.mp hu
        rw [haddress, List.append_assoc, List.append_assoc] at haddress'
        cases List.append_cancel_left haddress'
        exact Nat.lt_irrefl i hlt

theorem map_snd_occurrences (c : Condition α) : c.occurrences.map Prod.snd = c.leaves := by
  rw [occurrences, ← leaves_map, map_located]

/-- What is asked, without the addresses, is the trace. -/
theorem map_asked (truth : α → Bool) (c : Condition α) :
    ((c.asked truth).map fun e => (e.1.2, e.2)) = (c.trace truth).2 := by
  have hmap := congrArg Prod.snd (trace_map Prod.snd truth (c.located []))
  rw [map_located] at hmap
  exact hmap.symm

/-! ## Stopping early -/

/-- What evaluation with early stops has to do with the condition as it stands. -/
structure Exact (truth : α → Bool) (c : Condition α) : Prop where
  /-- Both evaluations come to the value of the eager fold, -/
  holds_eq : c.holds truth = c.eager truth
  value_eq : (c.trace truth).1 = c.eager truth
  /-- and the trace is some of the leaves in their order, each with its outcome. -/
  sublist : (c.trace truth).2.Sublist (c.leaves.map fun t => (t, truth t))
  /-- The leaves are the tests that stand at the addresses of the condition, each address once. -/
  leaves_eq : c.occurrences.map Prod.snd = c.leaves
  nodup : (c.occurrences.map Prod.fst).Nodup
  mem_occurrences : ∀ address t, (address, t) ∈ c.occurrences ↔ c.at? address = some (.leaf t)
  /-- So the trace is some of the occurrences in their order, -/
  trace_eq : ((c.asked truth).map fun e => (e.1.2, e.2)) = (c.trace truth).2
  asked_sublist : (c.asked truth).Sublist (c.occurrences.map fun o => (o, truth o.2))
  /-- namely those before which no AND and no OR above them is decided. -/
  asked_iff : ∀ address t, (∃ b, ((address, t), b) ∈ c.asked truth) ↔
    c.at? address = some (.leaf t) ∧ c.Reached truth address
  /-- Whoever gives the tests in the trace the same outcomes gets the same value and trace. -/
  determined : ∀ truth' : α → Bool, (∀ e ∈ (c.trace truth).2, truth' e.1 = e.2) →
    c.holds truth' = c.holds truth ∧ c.trace truth' = c.trace truth
      ∧ c.asked truth' = c.asked truth

/-- **Stopping early is exact.**  For every condition and whatever answers its tests: the value is
    that of the eager fold, and the tests asked are, occurrence by occurrence, those that the values
    of the parts in front of them leave open.  No other test matters. -/
theorem trace_exact (truth : α → Bool) (c : Condition α) : c.Exact truth where
  holds_eq := holds_eq_eager truth c
  value_eq := trace_value truth c
  sublist := trace_sublist truth c
  leaves_eq := map_snd_occurrences c
  nodup := nodup_addresses
  mem_occurrences address t := by
    -- From the root, whose address is empty.
    rw [occurrences, mem_leaves_located_iff]
    constructor
    · rintro ⟨inner, rfl, hat⟩
      exact hat
    · intro hat
      exact ⟨address, rfl, hat⟩
  trace_eq := map_asked truth c
  asked_sublist := trace_sublist _ (c.located [])
  asked_iff address t := by
    simp only [asked, mem_trace_located_iff]
    constructor
    · rintro ⟨b, _, inner, rfl, hat, hreached⟩
      exact ⟨hat, hreached⟩
    · rintro ⟨hat, hreached⟩
      exact ⟨truth t, rfl, address, rfl, hat, hreached⟩
  determined truth' h := by
    have htrace := trace_congr h
    refine ⟨?_, htrace, ?_⟩
    · rw [holds_eq_eager, holds_eq_eager, ← trace_value, ← trace_value, htrace]
    · refine congrArg Prod.snd (trace_congr fun e he => h (e.1.2, e.2) ?_)
      rw [← map_asked]
      exact List.mem_map_of_mem he

/-- One test at two addresses: behind the OR that the first occurrence has decided, the second one
    is not asked. -/
example : (not (all [leaf 1, any [leaf 1, leaf 2], leaf 3])).asked (· == 1)
    = [(([0, 0], 1), true), (([0, 1, 0], 1), true), (([0, 2], 3), false)] := rfl

end Verdict.Condition
