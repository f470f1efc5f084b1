/-
  Spelling — what the text of a condition says, token by token.

  1. **Specification** — `Written stops P text b`: the text spells tokens from which `P` derives
     `b`, wherever it stands in front of what stops it.

  2. **Rows** — texts with separators between them are written rows (`written_row`).  The names of
     a path and the parts of an operator are such rows.

  3. **Levels** — the text of a condition derives its FLAT form, with as many levels inside as the
     condition is deep.  How it does depends on how the text binds (`Spelled`): as one operand, or
     as a row of parts that may join a row around it.  A parenthesis costs one level, and stands
     only around a condition of depth one at least.
-/
import Verdict.Proofs.Condition.Flat
import Verdict.Proofs.Condition.Grammar
import Verdict.Proofs.Condition.Scanning

namespace Verdict.Condition

variable {α β γ : Type}

/-! ## Texts -/

/-- The text spells tokens from which `P` derives `b`; it does not begin with an equals sign. -/
structure Written (stops : Char → Prop) (P : List Token → β → Prop) (text : String) (b : β) :
    Prop where
  begins : ∃ c cs, text.toList = c :: cs ∧ c ≠ '='
  spells : ∃ ts, Spells stops text.toList ts ∧ P ts b

section

variable {stops : Char → Prop} {P : List Token → β → Prop} {text : String} {b : β}

/-- The same text, where the tokens derive something else as well. -/
theorem Written.imp {Q : List Token → γ → Prop} {b' : γ} (h : Written stops P text b)
    (himp : ∀ ts, P ts b → Q ts b') : Written stops Q text b' := by
  obtain ⟨ts, hspells, hP⟩ := h.spells
  exact ⟨h.begins, ts, hspells, himp ts hP⟩

/-- **Written rows with separators between them are a written row.**  By induction on the row; the
    text of each entry is scanned in front of a separator, the last one in front of what follows
    the whole. -/
theorem written_row {sign : Token} {separator : String}
    (hsign : Spells (fun _ => True) separator.toList [sign])
    (hstops : ∃ s others, separator.toList = s :: others ∧ stops s) (text : γ → String)
    (row : γ → List β) {xs : List γ} (hne : xs ≠ [])
    (h : ∀ x ∈ xs, Written stops (Separated sign P) (text x) (row x)) :
    Written stops (Separated sign P) (separator.intercalate (xs.map text)) (xs.flatMap row) := by
  obtain ⟨s, others, hseparator, hs⟩ := hstops
  induction xs with
  | nil => exact absurd rfl hne
  | cons x xs ih =>
      have hx := h x (List.mem_cons_self ..)
      rcases xs with _ | ⟨y, rest⟩
      · rw [List.map_singleton, String.intercalate_singleton, List.flatMap_singleton]
        exact hx
      · have hxs := ih nofun fun z hz => h z (List.mem_cons_of_mem _ hz)
        have htexts : (y :: rest).map text ≠ [] := nofun
        rw [List.map_cons, String.intercalate_cons_of_ne_nil htexts, List.flatMap_cons]
        -- The separator stops the text in front of it; the text behind it may begin as it likes.
        obtain ⟨c, cs, hc, hne⟩ := hx.begins
        obtain ⟨d, ds, hd, _⟩ := hxs.begins
        obtain ⟨ts, hspells, hts⟩ := hx.spells
        obtain ⟨us, hspells', hus⟩ := hxs.spells
        rw [hd] at hspells'
        have hfurther := hsign.append hspells' trivial
        rw [hseparator] at hfurther
        have hall := hspells.append hfurther hs
        refine ⟨⟨c, cs ++ s :: others ++ d :: ds, ?_, hne⟩, ts ++ sign :: us, ?_, hts.append hus⟩
        · rw [String.toList_append, String.toList_append, hc, hseparator, hd, List.cons_append,
            List.cons_append]
        · rw [String.toList_append, String.toList_append, hseparator, hd, List.append_assoc]
          exact hall

end

/-! ## Operators -/

/-- The sign between the parts of an operator. -/
def Operator.sign : Operator → Token
  | .and => .andSign
  | .or => .orSign

/-- What joins operands asks what they ask, be it one or several. -/
theorem Operator.leaves_joined (op : Operator) (cs : List (Condition α)) :
    (joined op.node cs).leaves = cs.flatMap leaves := by
  unfold joined
  split
  · rw [List.flatMap_singleton]
  · exact leaves_node op cs

/-- The functions of the condition language are the operators under their names. -/
theorem exists_operator_of_function? {name : String} {node : List (Condition α) → Condition α}
    (h : function? name = some node) : ∃ op : Operator, node = op.node := by
  unfold function? at h
  split at h
  · cases h
    exact ⟨.and, rfl⟩
  · cases h
    exact ⟨.or, rfl⟩
  · cases h

/-- What may follow the text of a condition inside another one. -/
def Follows (c : Char) : Prop := c = ' ' ∨ c = ')'

theorem follows_not_continuesName (c : Char) (h : Follows c) : continuesName c = false := by
  rcases h with rfl | rfl <;> rfl

theorem spells_nil (stops : Char → Prop) : Spells stops [] [] :=
  fun _ _ position _ => ⟨position, [], rfl, rfl⟩

theorem Operator.separator_begins (op : Operator) :
    ∃ s others, op.separator.toList = s :: others ∧ Follows s := by
  cases op with
  | and => exact ⟨' ', _, rfl, Or.inl rfl⟩
  | or => exact ⟨' ', _, rfl, Or.inl rfl⟩

/-- A separator spells the sign of its operator; the blanks around it spell nothing. -/
theorem Operator.spells_separator (op : Operator) :
    Spells (fun _ => True) op.separator.toList [op.sign] := by
  have hblank : Spells (fun _ => True) [' '] [] := (spells_nil _).space rfl
  cases op with
  | and => exact (spells_andSign.append hblank trivial).space rfl
  | or => exact (spells_orSign.append hblank trivial).space rfl

section

variable {resolver : Resolver α} {spell : α → String}

/-- The parts between the signs of an operator: those of an OR are rows of an AND. -/
def Operator.Part (resolver : Resolver α) (op : Operator) (levels : Nat) :
    List Token → Condition α → Prop :=
  match op with
  | .and => Operand resolver levels
  | .or => Chain .andSign .all (Operand resolver levels)

/-- What the reader makes of the parts of a flat condition is that condition. -/
theorem Operator.joined_parts_flat (op : Operator) (c : Condition α) :
    joined op.node (op.parts c.flat) = c.flat := by
  have hjoined : ∀ cs : List (Condition α), cs ≠ [] → joined op.node cs = op.join cs := by
    intro cs hne
    rcases cs with _ | ⟨c, _ | ⟨d, rest⟩⟩
    · exact absurd rfl hne
    · rfl
    · rfl
  rw [hjoined _ (op.parts_flat_ne_nil c), op.join_parts_flat]

/-- A condition is one part of an operator, unless its text binds as the operator does. -/
theorem Operator.parts_flat_of_ne {op : Operator} {c : Condition α} (h : c.binding ≠ op.binding) :
    op.parts c.flat = [c.flat] := by
  refine Operator.parts_of_ne fun ps hps => h ?_
  rw [← binding_flat, hps, binding_node op (flat_eq_node hps).1]

/-- Only an operator binds looser than an atom. -/
theorem one_le_depth {c : Condition α} (h : c.binding ≠ .unary) : 1 ≤ c.depth := by
  cases c with
  | constant b => exact absurd rfl h
  | leaf t => exact absurd rfl h
  | not c => exact absurd rfl h
  | all cs => exact (depth_node_le_iff.mp (Nat.le_refl (Operator.and.node cs).depth)).1
  | any cs => exact (depth_node_le_iff.mp (Nat.le_refl (Operator.or.node cs).depth)).1

/-- A row of parts is an expression: a row of AND is the only part of an OR. -/
theorem expression_of_row {op : Operator} {levels : Nat} {ts : List Token}
    {cs : List (Condition α)} (h : Separated op.sign (op.Part resolver levels) ts cs) :
    Expression (Operand resolver levels) ts (joined op.node cs) := by
  cases op with
  | and => exact ⟨[joined .all cs], .one ⟨cs, h, rfl⟩, rfl⟩
  | or => exact ⟨cs, h, rfl⟩

/-- A parenthesis around an expression is an operand, with one level more. -/
theorem written_group {levels : Nat} {text : String} {c : Condition α}
    (h : Written Follows (Expression (Operand resolver levels)) text c) :
    Written Follows (Operand resolver (levels + 1)) ("(" ++ text ++ ")") c := by
  obtain ⟨d, ds, hd, _⟩ := h.begins
  obtain ⟨ts, hspells, hts⟩ := h.spells
  have hchars : ("(" ++ text ++ ")").toList = ['('] ++ (text.toList ++ [')']) := by
    rw [String.toList_append, String.toList_append, List.append_assoc]
    rfl
  have hgroup : Operand resolver (levels + 1) (.opening :: (ts ++ [.closing])) c :=
    OperandOf.group rfl hts
  refine ⟨⟨'(', _, hchars, by decide⟩, _, ?_, hgroup⟩
  -- The closing parenthesis may follow the text, and anything may follow the opening one.
  have hinside : Spells Follows (text.toList ++ [')']) (ts ++ [.closing]) :=
    hspells.append (spells_closing.mono fun _ _ => trivial) (Or.inr rfl)
  rw [hchars]
  rw [hd, List.cons_append] at hinside ⊢
  exact spells_opening.append hinside trivial

/-- A negation sign in front of an operand makes one, with one level more.  The operand must not
    begin with an equals sign, or the two would be a comparator. -/
theorem written_negation {levels : Nat} {text : String} {c : Condition α}
    (h : Written Follows (Operand resolver levels) text c) :
    Written Follows (Operand resolver (levels + 1)) ("!" ++ text) (.not c) := by
  obtain ⟨d, ds, hd, hne⟩ := h.begins
  obtain ⟨ts, hspells, hts⟩ := h.spells
  have hchars : ("!" ++ text).toList = ['!'] ++ text.toList := String.toList_append
  have hnegation : Operand resolver (levels + 1) (.notSign :: ts) (.not c) :=
    OperandOf.negation rfl hts
  refine ⟨⟨'!', _, hchars, by decide⟩, _, ?_, hnegation⟩
  rw [hchars]
  rw [hd] at hspells ⊢
  exact spells_notSign.append hspells hne

/-! ## Conditions -/

/-- What the text of a condition derives, as an operand or as a row of parts. -/
structure Spelled (resolver : Resolver α) (spell : α → String) (c : Condition α) : Prop where
  operand : c.binding = .unary → ∀ levels, c.depth ≤ levels →
    Written Follows (Operand resolver levels) (c.render spell) c.flat
  row : ∀ op : Operator, c.binding = op.binding → ∀ levels, c.depth ≤ levels + 1 →
    Written Follows (Separated op.sign (op.Part resolver levels)) (c.render spell)
      (op.parts c.flat)

variable {c : Condition α}

/-- Where an operand must stand, in a parenthesis if it takes one: then the condition is an
    operator, whose row of parts is the expression inside. -/
theorem Spelled.wrapped_unary (h : Spelled resolver spell c) {levels : Nat}
    (hdepth : c.depth ≤ levels) :
    Written Follows (Operand resolver levels) (wrapped .unary c.binding (c.render spell))
      c.flat := by
  have hgroup : ∀ op : Operator, c.binding = op.binding →
      Written Follows (Operand resolver levels) ("(" ++ c.render spell ++ ")") c.flat := by
    intro op hop
    -- The parenthesis takes a level, and there is one: what stands inside is an operator.
    have hpos : 1 ≤ c.depth := one_le_depth (by rw [hop]; cases op <;> nofun)
    obtain ⟨inner, rfl⟩ : ∃ inner, levels = inner + 1 := ⟨levels - 1, by omega⟩
    have hrow := h.row op hop inner hdepth
    refine written_group (hrow.imp fun ts hts => ?_)
    rw [← op.joined_parts_flat c]
    exact expression_of_row hts
  cases hbinding : c.binding with
  | unary => exact h.operand hbinding levels hdepth
  | and => exact hgroup .and hbinding
  | or => exact hgroup .or hbinding

/-- Where a part of an operator must stand, in a parenthesis if it takes one.  AND stands under OR
    without a parenthesis, as a row of its own; OR under AND takes one. -/
theorem Spelled.wrapped (h : Spelled resolver spell c) (op : Operator) {levels : Nat}
    (hdepth : c.depth ≤ levels) :
    Written Follows (Separated op.sign (op.Part resolver levels))
      (wrapped op.binding c.binding (c.render spell)) (op.parts c.flat) := by
  by_cases hsame : c.binding = op.binding
  · -- The parts of the condition join those around it.
    rw [hsame, Condition.wrapped, Binding.looser_self]
    exact h.row op hsame levels (Nat.le_succ_of_le hdepth)
  · -- Otherwise it is one part, in a parenthesis or not.
    rw [Operator.parts_flat_of_ne hsame]
    have hunary := h.wrapped_unary hdepth
    cases op with
    | and =>
        -- Under an AND everything is wrapped that an operand would be.
        have hwrapped : Condition.wrapped .and c.binding (c.render spell)
            = Condition.wrapped .unary c.binding (c.render spell) := by
          cases hbinding : c.binding with
          | and => exact absurd hbinding hsame
          | unary => rfl
          | or => rfl
        show Written _ _ (Condition.wrapped .and c.binding (c.render spell)) _
        rw [hwrapped]
        exact hunary.imp fun ts hts => .one hts
    | or =>
        cases hbinding : c.binding with
        | or => exact absurd hbinding hsame
        | unary =>
            rw [hbinding] at hunary
            exact hunary.imp fun ts hts => .one ⟨[c.flat], .one hts, rfl⟩
        | and =>
            have hrow := h.row .and hbinding levels (Nat.le_succ_of_le hdepth)
            refine hrow.imp fun ts hts => .one ⟨_, hts, ?_⟩
            exact (Operator.joined_parts_flat .and c).symm

theorem operand_of_operandOf {ts : List Token}
    (h : ∀ inner, OperandOf resolver inner ts c) (levels : Nat) : Operand resolver levels ts c := by
  cases levels with
  | zero => exact h none
  | succ levels => exact h (some _)

/-- A constant is written as its word. -/
theorem written_constant (b : Bool) (levels : Nat) :
    Written Follows (Operand resolver levels) ((constant b : Condition α).render spell)
      (constant b) := by
  cases b with
  | true =>
      rw [render, if_pos rfl]
      have hword : Operand resolver levels [.trueWord] (constant true) :=
        operand_of_operandOf (fun _ => .trueWord) levels
      refine ⟨⟨'t', _, rfl, by decide⟩, _, ?_, hword⟩
      exact (spells_word "true" rfl).mono follows_not_continuesName
  | false =>
      rw [render, if_neg Bool.false_ne_true]
      have hword : Operand resolver levels [.falseWord] (constant false) :=
        operand_of_operandOf (fun _ => .falseWord) levels
      refine ⟨⟨'f', _, rfl, by decide⟩, _, ?_, hword⟩
      exact (spells_word "false" rfl).mono follows_not_continuesName

/-- What binds as an atom is no row, so only the operand has to be shown. -/
theorem spelled_of_unary (hbinding : c.binding = .unary) (h : ∀ levels, c.depth ≤ levels →
    Written Follows (Operand resolver levels) (c.render spell) c.flat) :
    Spelled resolver spell c := by
  refine ⟨fun _ => h, fun op hop => ?_⟩
  rw [hbinding] at hop
  cases op <;> exact nomatch hop

/-- One part alone is spelled as itself. -/
theorem Spelled.singleton (op : Operator) (h : Spelled resolver spell c) :
    Spelled resolver spell (op.node [c]) := by
  have hle : c.depth ≤ (op.node [c]).depth := by
    have hpart := (depth_node_le_iff.mp (Nat.le_refl (op.node [c]).depth)).2 c
      (List.mem_singleton_self c)
    omega
  constructor
  · intro hbinding levels hdepth
    rw [binding_node_singleton] at hbinding
    rw [render_node_singleton, flat_node_singleton]
    exact h.operand hbinding levels (Nat.le_trans hle hdepth)
  · intro op' hbinding levels hdepth
    rw [binding_node_singleton] at hbinding
    rw [render_node_singleton, flat_node_singleton]
    exact h.row op' hbinding levels (Nat.le_trans hle hdepth)

/-- Two parts or more are spelled as a row.  Each of them is one less deep than the node, which is
    the level that a parenthesis around it would take. -/
theorem spelled_node (op : Operator) {cs : List (Condition α)} (htwo : 2 ≤ cs.length)
    (h : ∀ c ∈ cs, Spelled resolver spell c) : Spelled resolver spell (op.node cs) := by
  have hbinding := binding_node op htwo
  constructor
  · intro hunary
    rw [hbinding] at hunary
    cases op <;> cases hunary
  · intro op' hop' levels hdepth
    obtain rfl : op = op' := by
      rw [hbinding] at hop'
      cases op <;> cases op' <;> first | rfl | cases hop'
    obtain ⟨_, hdeep⟩ := depth_node_le_iff.mp hdepth
    have hne : cs ≠ [] := List.ne_nil_of_length_pos (by omega)
    rw [render_node spell op htwo, flat_node_of_two_le op htwo, Operator.parts_node]
    refine written_row op.spells_separator op.separator_begins _ _ hne fun c hc => ?_
    exact (h c hc).wrapped op (Nat.le_of_succ_le_succ (hdeep c hc))

/-- **The text of every condition** derives its flat form.  By induction through the parts, with
    one lemma for each kind of node; what the leaves are written as is left to the caller. -/
theorem spelled (c : Condition α)
    (hleaves : ∀ t ∈ c.leaves, Written Follows (AtomOf resolver) (spell t) (.leaf t)) :
    Spelled resolver spell c := by
  induction c with
  | constant b => exact spelled_of_unary rfl fun levels _ => written_constant b levels
  | leaf t =>
      refine spelled_of_unary rfl fun levels _ => ?_
      refine (hleaves t (List.mem_singleton_self t)).imp fun ts hts => ?_
      exact operand_of_operandOf (fun _ => .atom hts) levels
  | not c ih =>
      -- A negation is one level deeper than what it negates, so there is a level for it.
      refine spelled_of_unary rfl fun levels hdepth => ?_
      rw [depth] at hdepth
      obtain ⟨inner, rfl⟩ : ∃ inner, levels = inner + 1 := ⟨levels - 1, by omega⟩
      rw [render, flat]
      exact written_negation ((ih hleaves).wrapped_unary (by omega))
  | node op cs ih =>
      rw [leaves_node] at hleaves
      have hparts : ∀ c ∈ cs, Spelled resolver spell c := fun c hc =>
        ih c hc fun t ht => hleaves t (List.mem_flatMap.mpr ⟨c, hc, ht⟩)
      -- Only with two parts does the text show that there is a node.
      rcases cs with _ | ⟨c, _ | ⟨d, rest⟩⟩
      · refine spelled_of_unary (binding_node_nil op) fun levels _ => ?_
        rw [render_node_nil, flat_node_nil]
        exact written_constant op.unit levels
      · exact (hparts c (List.mem_singleton_self c)).singleton op
      · exact spelled_node op (by simp) hparts

/-- The whole text is an expression, as it stands: nothing binds looser than OR, so it is wrapped
    in nothing. -/
theorem Spelled.expression (h : Spelled resolver spell c) {levels : Nat}
    (hdepth : c.depth ≤ levels) :
    Written Follows (Expression (Operand resolver levels)) (c.render spell) c.flat := by
  have hrow := h.wrapped .or hdepth
  have htext : Condition.wrapped Operator.or.binding c.binding (c.render spell)
      = c.render spell := by
    cases c.binding <;> rfl
  rw [htext] at hrow
  refine hrow.imp fun ts hts => ?_
  rw [← Operator.joined_parts_flat .or c]
  exact expression_of_row hts

end

end Verdict.Condition
