/-
  Completeness of reading — whatever the grammar derives is read, as it is derived.

  1. **Specification** — `Reads r P stops`: if `P` derives something from the tokens in front, and
     what follows them cannot go on with it (`stops`), then `r` reads exactly that and leaves
     exactly what follows.

  2. **Readers** — one lemma for each reader; a row is read by induction on its derivation, with
     what was read before in an accumulator.

  3. **Levels** — an operand one level deeper is read by the reader one level deeper
     (`operandAt_reads`).

  Core only.
-/
import Verdict.Proofs.Condition.Grammar

namespace Verdict.Condition

variable {α β : Type}

/-! ## The specification -/

/-- A reader reads what is derived, where the text cannot go on with it. -/
def Reads (r : Reader β) (P : List Token → β → Prop) (stops : List Placed → Prop) : Prop :=
  ∀ (tokens ps : List Placed) (b : β) (rest : List Placed), tokens = ps ++ rest →
    P (ps.map Placed.token) b → stops rest → ∃ h, r tokens = .ok ⟨b, rest, h⟩

/-- What may follow an operand: no point, no comparator, no parenthesis of a call. -/
def EndsOperand (rest : List Placed) : Prop :=
  ∀ t ∈ rest.head?, t.token ≠ .dot ∧ t.token ≠ .opening ∧ ∀ c, t.token ≠ .comparator c

/-- What may follow an expression: moreover no sign of AND or OR. -/
def EndsExpression (rest : List Placed) : Prop :=
  (EndsOperand rest ∧ past? .andSign rest = none) ∧ past? .orSign rest = none

/-! ## Single tokens -/

theorem past?_cons {sign : Token} {t : Placed} (h : t.token = sign) (rest : List Placed) :
    past? sign (t :: rest) = some ⟨(), rest, Nat.lt_succ_self _⟩ := if_pos h

theorem past?_eq_none {sign : Token} {rest : List Placed} (h : ∀ t ∈ rest.head?, t.token ≠ sign) :
    past? sign rest = none := by
  cases rest with
  | nil => rfl
  | cons t rest => exact if_neg (h t rfl)

theorem past?_cons_of_ne {sign : Token} {t : Placed} (h : t.token ≠ sign) (rest : List Placed) :
    past? sign (t :: rest) = none := if_neg h

theorem pastComparator?_eq_none {rest : List Placed}
    (h : ∀ t ∈ rest.head?, ∀ c, t.token ≠ .comparator c) : pastComparator? rest = none := by
  rcases rest with _ | ⟨⟨token, position⟩, rest⟩
  · rfl
  · cases token with
    | comparator c => exact absurd rfl (h _ rfl c)
    | _ => rfl

/-- Signs, commas and closing parentheses end an operand. -/
theorem endsOperand_cons {t : Placed} (h : t.token = .andSign ∨ t.token = .orSign
    ∨ t.token = .comma ∨ t.token = .closing) (rest : List Placed) : EndsOperand (t :: rest) := by
  intro u hu
  obtain rfl : t = u := Option.some.inj hu
  rcases h with h | h | h | h <;> rw [h] <;> exact ⟨nofun, nofun, nofun⟩

/-- Commas and closing parentheses end an expression. -/
theorem endsExpression_cons {t : Placed} (h : t.token = .comma ∨ t.token = .closing)
    (rest : List Placed) : EndsExpression (t :: rest) := by
  refine ⟨⟨endsOperand_cons (Or.inr (Or.inr h)) rest, past?_cons_of_ne ?_ rest⟩,
    past?_cons_of_ne ?_ rest⟩
  · rcases h with h | h <;> rw [h] <;> nofun
  · rcases h with h | h <;> rw [h] <;> nofun

theorem endsExpression_nil : EndsExpression [] := ⟨⟨nofun, rfl⟩, rfl⟩

/-- A row of tokens taken apart where its derivation is. -/
theorem exists_of_map_append {ps : List Placed} {ts us : List Token} {t : Token}
    (h : ps.map Placed.token = ts ++ t :: us) :
    ∃ qs p rs, ps = qs ++ p :: rs ∧ qs.map Placed.token = ts ∧ p.token = t
      ∧ rs.map Placed.token = us := by
  obtain ⟨qs, others, rfl, hqs, hothers⟩ := List.map_eq_append_iff.mp h
  obtain ⟨p, rs, rfl, hp, hrs⟩ := List.map_eq_cons_iff.mp hothers
  exact ⟨qs, p, rs, rfl, hqs, hp, hrs⟩

/-! ## Literals and paths -/

/-- A literal is one token, whatever follows. -/
theorem literal_reads (stop : Nat) {p : Placed} {s : Scalar} (h : LiteralOf p.token s)
    (rest : List Placed) : ∃ h, literal stop (p :: rest) = .ok ⟨s, rest, h⟩ := by
  obtain ⟨token, position⟩ := p
  cases h with
  | trueWord => exact ⟨_, rfl⟩
  | falseWord => exact ⟨_, rfl⟩
  | string => exact ⟨_, rfl⟩
  | number denotes =>
      refine ⟨Nat.lt_succ_self _, ?_⟩
      rw [literal, denotes]

/-- A row that stands for one name is one token. -/
theorem eq_singleton_of_name {ps : List Placed} {name : String}
    (h : ps.map Placed.token = [.name name]) : ∃ position, ps = [⟨.name name, position⟩] := by
  obtain ⟨⟨token, position⟩, qs, rfl, htoken, hqs⟩ := List.map_eq_cons_iff.mp h
  obtain rfl := List.map_eq_nil_iff.mp hqs
  cases htoken
  exact ⟨position, rfl⟩

/-- A path: its first name, and the others behind their points.  The reader has taken the first name
    already when the loop begins, and `done` holds those before; the induction is on the row of
    names, for every `done`. -/
theorem furtherNames_reads (stop : Nat) {ts : List Token} {names : List String}
    (h : PathOf ts names) {ps : List Placed} (hps : ps.map Placed.token = ts)
    {rest : List Placed} (hrest : past? .dot rest = none) :
    ∃ name position qs, ps = ⟨.name name, position⟩ :: qs ∧ (∀ t ∈ qs.head?, t.token = .dot)
      ∧ ∀ (start tokens : List Placed) (done : List String) (hlt : tokens.length < start.length),
          tokens = qs ++ rest → ∃ h,
            furtherNames stop (name :: done) tokens hlt = .ok ⟨done.reverse ++ names, rest, h⟩ := by
  unfold PathOf at h
  induction h generalizing ps with
  | @one ts name only =>
      subst only
      obtain ⟨position, rfl⟩ := eq_singleton_of_name hps
      refine ⟨name, position, [], rfl, nofun, fun start tokens done hlt htokens => ?_⟩
      rw [List.nil_append] at htokens
      subst htokens
      refine ⟨hlt, ?_⟩
      rw [furtherNames, hrest, List.reverse_cons]
  | @more ts us name names only _ ih =>
      subst only
      obtain ⟨qs, p, rs, rfl, hqs, hp, hrs⟩ := exists_of_map_append hps
      obtain ⟨position, rfl⟩ := eq_singleton_of_name hqs
      obtain ⟨name', position', qs', rfl, _, hread⟩ := ih hrs
      refine ⟨name, position, p :: ⟨.name name', position'⟩ :: qs', rfl, fun t ht => ?_,
        fun start tokens done hlt htokens => ?_⟩
      · obtain rfl : p = t := Option.some.inj ht
        exact hp
      subst htokens
      have hlt' : (qs' ++ rest).length < start.length := by
        simp only [List.cons_append, List.length_cons] at hlt
        omega
      -- The name in front joins those read before it, and the reader stands before the next one.
      obtain ⟨h, hnames⟩ := hread start _ (name :: done) hlt' rfl
      refine ⟨h, ?_⟩
      show furtherNames stop (name :: done) (p :: ⟨.name name', position'⟩ :: (qs' ++ rest)) _ = _
      rw [List.reverse_cons, List.append_assoc] at hnames
      rw [furtherNames, past?_cons hp]
      exact hnames

/-! ## Chains and arguments -/

/-- A row of operands: the first one, and the others behind their signs.  As with names, the first
    has been read when the loop begins.  A sign of the row is something that an operand stops at
    (`hsign`), and behind the last one there is none (`hrest`). -/
theorem furtherOperands_reads {sign : Token} {operand : Reader (Condition α)}
    {P : List Token → Condition α → Prop} {stops : List Placed → Prop}
    (hop : Reads operand P stops) (hsign : ∀ t rest, t.token = sign → stops (t :: rest))
    {ts : List Token} {cs : List (Condition α)} (h : Separated sign P ts cs)
    {tokens ps : List Placed} (hps : ps.map Placed.token = ts) {rest : List Placed}
    (htokens : tokens = ps ++ rest) (hstops : stops rest) (hrest : past? sign rest = none) :
    ∃ c others h₁, operand tokens = .ok ⟨c, others, h₁⟩
      ∧ ∀ (start : List Placed) (done : List (Condition α)) (hlt : others.length < start.length),
          ∃ h, furtherOperands sign operand (c :: done) others hlt
            = .ok ⟨done.reverse ++ cs, rest, h⟩ := by
  induction h generalizing tokens ps with
  | @one ts c only =>
      obtain ⟨h₁, hread⟩ := hop tokens ps c rest htokens (hps ▸ only) hstops
      refine ⟨c, rest, h₁, hread, fun start done hlt => ⟨hlt, ?_⟩⟩
      rw [furtherOperands, hrest, List.reverse_cons]
  | @more ts us c cs first _ ih =>
      obtain ⟨qs, p, rs, rfl, hqs, hp, hrs⟩ := exists_of_map_append hps
      rw [List.append_assoc] at htokens
      -- This operand stops at its sign; those behind it are read by the induction hypothesis.
      obtain ⟨h₁, hread⟩ := hop tokens qs c (p :: (rs ++ rest)) htokens (hqs ▸ first) (hsign p _ hp)
      obtain ⟨c', others, h₂, hread', hfurther⟩ := ih hrs rfl
      refine ⟨c, p :: (rs ++ rest), h₁, hread, fun start done hlt => ?_⟩
      have hlt' : others.length < start.length := by
        rw [List.length_cons] at hlt
        omega
      obtain ⟨h, hall⟩ := hfurther start (c :: done) hlt'
      refine ⟨h, ?_⟩
      rw [List.reverse_cons, List.append_assoc] at hall
      rw [furtherOperands, past?_cons hp]
      dsimp only
      rw [hread']
      exact hall

/-- A chain is read where neither its operands nor the row itself can go on. -/
theorem chain_reads {sign : Token} {node : List (Condition α) → Condition α}
    {operand : Reader (Condition α)} {P : List Token → Condition α → Prop}
    {stops : List Placed → Prop} (hop : Reads operand P stops)
    (hsign : ∀ t rest, t.token = sign → stops (t :: rest)) :
    Reads (chain sign node operand) (Chain sign node P)
      fun rest => stops rest ∧ past? sign rest = none := by
  rintro tokens ps c rest htokens ⟨cs, hsep, rfl⟩ ⟨hstops, hrest⟩
  obtain ⟨c, others, h₁, hread, hfurther⟩ :=
    furtherOperands_reads hop hsign hsep rfl htokens hstops hrest
  obtain ⟨h, hall⟩ := hfurther tokens [] h₁
  refine ⟨h, ?_⟩
  rw [chain, hread]
  dsimp only
  rw [hall]
  rfl

/-- **An expression is read** if its operands are.  The inner chain stops at the sign of the outer
    one, because an operand does and because it is not its own. -/
theorem expression_reads {operand : Reader (Condition α)} {P : List Token → Condition α → Prop}
    (hop : Reads operand P EndsOperand) :
    Reads (expression operand) (Expression P) EndsExpression := by
  have hand : Reads (chain .andSign .all operand) (Chain .andSign .all P)
      fun rest => EndsOperand rest ∧ past? .andSign rest = none :=
    chain_reads hop fun t rest ht => endsOperand_cons (Or.inl ht) rest
  refine chain_reads hand fun t rest ht => ⟨endsOperand_cons (Or.inr (Or.inl ht)) rest, ?_⟩
  refine past?_cons_of_ne ?_ rest
  rw [ht]
  nofun

/-- A row of arguments, and the parenthesis behind them.  Unlike a chain, the loop begins in front
    of an argument, and what it looks for behind one is a comma first and the parenthesis then. -/
theorem furtherArguments_reads (stop : Nat) {argument : Reader (Condition α)}
    {P : List Token → Condition α → Prop} (harg : Reads argument P EndsExpression)
    {ts : List Token} {cs : List (Condition α)} (h : Separated .comma P ts cs)
    {tokens ps : List Placed} (hps : ps.map Placed.token = ts) {q : Placed}
    (hq : q.token = .closing) {rest : List Placed} (htokens : tokens = ps ++ q :: rest)
    (start : List Placed) (done : List (Condition α)) (hlt : tokens.length < start.length) :
    ∃ h, furtherArguments stop argument done tokens hlt = .ok ⟨done.reverse ++ cs, rest, h⟩ := by
  have hend : EndsExpression (q :: rest) := endsExpression_cons (Or.inr hq) rest
  induction h generalizing tokens ps done with
  | @one ts c only =>
      -- No comma follows the last argument, so the parenthesis is what is looked for next.
      obtain ⟨h₁, hread⟩ := harg tokens ps c (q :: rest) htokens (hps ▸ only) hend
      have hcomma : q.token ≠ .comma := by
        rw [hq]
        nofun
      have h : rest.length < start.length := by
        rw [List.length_cons] at h₁
        omega
      refine ⟨h, ?_⟩
      rw [furtherArguments, hread]
      dsimp only
      rw [past?_cons_of_ne hcomma, past?_cons hq, List.reverse_cons]
  | @more ts us c cs first _ ih =>
      obtain ⟨qs, p, rs, rfl, hqs, hp, hrs⟩ := exists_of_map_append hps
      rw [List.append_assoc] at htokens
      obtain ⟨h₁, hread⟩ := harg tokens qs c (p :: (rs ++ q :: rest)) htokens (hqs ▸ first)
        (endsExpression_cons (Or.inl hp) _)
      have hlt' : (rs ++ q :: rest).length < start.length := by
        rw [List.length_cons] at h₁
        omega
      obtain ⟨h, hall⟩ := ih hrs rfl (c :: done) hlt'
      refine ⟨h, ?_⟩
      rw [List.reverse_cons, List.append_assoc] at hall
      rw [furtherArguments, hread]
      dsimp only
      rw [past?_cons hp]
      exact hall

/-- **Arguments are read**, and the parenthesis behind them, whether there are any or none. -/
theorem arguments_reads (stop : Nat) {argument : Reader (Condition α)}
    {P : List Token → Condition α → Prop} (harg : Reads argument P EndsExpression)
    (hbegins : Begins P) {cs : List (Condition α)} {tokens ps : List Placed}
    (h : ArgumentsOf P (ps.map Placed.token) cs) {q : Placed} (hq : q.token = .closing)
    {rest : List Placed} (htokens : tokens = ps ++ q :: rest) (start : List Placed)
    (hlt : tokens.length < start.length) :
    ∃ h, arguments stop argument tokens hlt = .ok ⟨cs, rest, h⟩ := by
  generalize hps : ps.map Placed.token = ts at h
  cases h with
  | none =>
      obtain rfl := List.map_eq_nil_iff.mp hps
      subst htokens
      have h : rest.length < start.length := Nat.lt_trans (Nat.lt_succ_self _) hlt
      refine ⟨h, ?_⟩
      show arguments stop argument (q :: rest) _ = _
      rw [arguments, past?_cons hq]
  | some row =>
      -- No argument begins with the closing parenthesis, so the row is not taken for an empty one.
      obtain ⟨t, us, rfl, hne⟩ := hbegins.separated .comma _ _ row
      obtain ⟨p, rs, rfl, hp, _⟩ := List.map_eq_cons_iff.mp hps
      have hclosing : past? .closing tokens = none := by
        subst htokens
        exact past?_cons_of_ne (hp ▸ hne) _
      obtain ⟨h, hread⟩ := furtherArguments_reads stop harg row hps hq htokens start [] hlt
      refine ⟨h, ?_⟩
      rw [arguments, hclosing]
      exact hread

/-! ## Operands -/

section

variable {resolver : Resolver α} {stop : Nat}

theorem past?_opening_of_path {qs rest : List Placed} (hqs : ∀ t ∈ qs.head?, t.token = .dot)
    (hrest : past? .opening rest = none) : past? .opening (qs ++ rest) = none := by
  cases qs with
  | nil => exact hrest
  | cons t qs =>
      refine past?_cons_of_ne ?_ _
      rw [hqs t rfl]
      nofun

/-- **An atom is read**, once its first name has been; what follows the name opens no call.  Behind
    a path stands nothing that goes on with it: either what follows the operand, or a comparator
    with its literal. -/
theorem atom_reads {ts : List Token} {c : Condition α} (h : AtomOf resolver ts c)
    {ps : List Placed} (hps : ps.map Placed.token = ts) {rest : List Placed}
    (hrest : EndsOperand rest) :
    ∃ name position qs, ps = ⟨.name name, position⟩ :: qs
      ∧ past? .opening (qs ++ rest) = none
      ∧ ∀ (start tokens : List Placed) (hlt : tokens.length < start.length),
          tokens = qs ++ rest →
          ∃ h, atom resolver stop name position tokens hlt = .ok ⟨c, rest, h⟩ := by
  cases h with
  | @field _ names test path known =>
      -- What follows is no point, no parenthesis and no comparator.
      have hdot : past? .dot rest = none := past?_eq_none fun t ht => (hrest t ht).1
      have hopening : past? .opening rest = none := past?_eq_none fun t ht => (hrest t ht).2.1
      have hcomparator : pastComparator? rest = none :=
        pastComparator?_eq_none fun t ht => (hrest t ht).2.2
      obtain ⟨name, position, qs, rfl, hqs, hread⟩ :=
        furtherNames_reads stop path hps hdot
      refine ⟨name, position, qs, rfl, past?_opening_of_path hqs hopening,
        fun start tokens hlt htokens => ?_⟩
      obtain ⟨h, hnames⟩ := hread start tokens [] hlt htokens
      refine ⟨h, ?_⟩
      rw [atom, hnames]
      dsimp only
      rw [hcomparator, List.reverse_nil, List.nil_append, known]
  | @comparison us names comparator t s test path lit known =>
      obtain ⟨ns, p, rs, rfl, hns, hp, hrs⟩ := exists_of_map_append hps
      obtain ⟨q, others, rfl, hq, hothers⟩ := List.map_eq_cons_iff.mp hrs
      obtain rfl := List.map_eq_nil_iff.mp hothers
      obtain ⟨token, place⟩ := p
      obtain rfl : token = .comparator comparator := hp
      -- The comparator ends the path and opens no call.
      have hdot : past? .dot (⟨.comparator comparator, place⟩ :: q :: rest) = none := by
        refine past?_cons_of_ne ?_ _
        nofun
      have hopening : past? .opening (⟨.comparator comparator, place⟩ :: q :: rest) = none := by
        refine past?_cons_of_ne ?_ _
        nofun
      obtain ⟨name, position, qs, rfl, hqs, hread⟩ :=
        furtherNames_reads stop path hns hdot
      refine ⟨name, position, qs ++ ⟨.comparator comparator, place⟩ :: [q], rfl, ?_,
        fun start tokens hlt htokens => ?_⟩
      · rw [List.append_assoc]
        exact past?_opening_of_path hqs hopening
      · rw [List.append_assoc] at htokens
        obtain ⟨h, hnames⟩ := hread start tokens [] hlt htokens
        obtain ⟨hshort, hliteral⟩ := literal_reads stop (hq ▸ lit) rest
        have h' : rest.length < start.length := by
          simp only [List.length_cons] at h
          omega
        refine ⟨h', ?_⟩
        rw [atom, hnames]
        dsimp only [pastComparator?]
        rw [hliteral]
        dsimp only
        rw [List.reverse_nil, List.nil_append, known]

section

variable {r : Reader (Condition α)} {P : List Token → Condition α → Prop}

/-- What stands behind a negation sign is read as an operand one level deeper. -/
theorem negated_reads (hr : Reads r P EndsOperand) {qs : List Placed} {c : Condition α}
    (h : P (qs.map Placed.token) c) {rest : List Placed} (hrest : EndsOperand rest)
    (position : Nat) (start : List Placed) (hlt : (qs ++ rest).length < start.length) :
    ∃ h, negated (some r) position (qs ++ rest) hlt = .ok ⟨.not c, rest, h⟩ := by
  obtain ⟨hshorter, hread⟩ := hr (qs ++ rest) qs c rest rfl h hrest
  refine ⟨Nat.lt_trans hshorter hlt, ?_⟩
  rw [negated, hread]

/-- What stands in a parenthesis is read as an expression one level deeper. -/
theorem grouped_reads (hr : Reads r P EndsOperand) {qs : List Placed} {c : Condition α}
    (h : Expression P (qs.map Placed.token) c) {p : Placed} (hp : p.token = .closing)
    {rest : List Placed} (position : Nat) (start : List Placed)
    (hlt : (qs ++ p :: rest).length < start.length) :
    ∃ h, grouped stop (some r) position (qs ++ p :: rest) hlt = .ok ⟨c, rest, h⟩ := by
  obtain ⟨hshorter, hread⟩ := expression_reads hr (qs ++ p :: rest) qs c (p :: rest) rfl h
    (endsExpression_cons (Or.inr hp) rest)
  have hlt' : rest.length < start.length := by
    rw [List.length_cons] at hshorter
    omega
  refine ⟨hlt', ?_⟩
  rw [grouped, hread]
  dsimp only
  rw [past?_cons hp]

/-- What stands behind the name of a function is read as arguments one level deeper. -/
theorem call_reads (hr : Reads r P EndsOperand) (hbegins : Begins P) {name : String}
    {node : List (Condition α) → Condition α} (function : function? name = some node)
    {qs : List Placed} {cs : List (Condition α)}
    (h : ArgumentsOf (Expression P) (qs.map Placed.token) cs) {o p : Placed}
    (ho : o.token = .opening) (hp : p.token = .closing) {rest : List Placed} (position : Nat)
    (start : List Placed) (hlt : (o :: (qs ++ p :: rest)).length < start.length) :
    ∃ h, named resolver stop (some r) name position (o :: (qs ++ p :: rest)) hlt
      = .ok ⟨node cs, rest, h⟩ := by
  have hlt' : (qs ++ p :: rest).length < start.length := Nat.lt_trans (Nat.lt_succ_self _) hlt
  obtain ⟨hshorter, hread⟩ := arguments_reads stop (expression_reads hr) hbegins.expression h hp rfl
    start hlt'
  refine ⟨hshorter, ?_⟩
  rw [named, past?_cons ho]
  dsimp only
  rw [function]
  dsimp only
  rw [hread]

end

/-- An operand is read if those one level deeper are.  One case for each rule of the grammar, which
    shows the first token and so the reader that goes on. -/
theorem operand_reads {inner : Option (Reader (Condition α))}
    {P? : Option (List Token → Condition α → Prop)}
    (hinner : ∀ P, P? = some P → ∃ r, inner = some r ∧ Reads r P EndsOperand ∧ Begins P) :
    Reads (operand resolver stop inner) (OperandOf resolver P?) EndsOperand := by
  intro tokens ps c rest htokens h hrest
  subst htokens
  generalize hps : ps.map Placed.token = ts at h
  -- The first token decides which reader goes on.
  cases h with
  | trueWord =>
      obtain ⟨⟨token, position⟩, qs, rfl, rfl, hqs⟩ := List.map_eq_cons_iff.mp hps
      obtain rfl := List.map_eq_nil_iff.mp hqs
      exact ⟨Nat.lt_succ_self _, rfl⟩
  | falseWord =>
      obtain ⟨⟨token, position⟩, qs, rfl, rfl, hqs⟩ := List.map_eq_cons_iff.mp hps
      obtain rfl := List.map_eq_nil_iff.mp hqs
      exact ⟨Nat.lt_succ_self _, rfl⟩
  | atom h =>
      obtain ⟨name, position, qs, rfl, hopening, hread⟩ := atom_reads h hps hrest
      obtain ⟨h, hatom⟩ := hread (⟨.name name, position⟩ :: (qs ++ rest)) _ (Nat.lt_succ_self _) rfl
      refine ⟨h, ?_⟩
      show named resolver stop inner name position (qs ++ rest) _ = _
      rw [named, hopening]
      exact hatom
  | negation level h =>
      obtain ⟨r, rfl, hr, _⟩ := hinner _ level
      obtain ⟨⟨token, position⟩, qs, rfl, rfl, rfl⟩ := List.map_eq_cons_iff.mp hps
      exact negated_reads hr h hrest position _ (Nat.lt_succ_self _)
  | group level h =>
      obtain ⟨r, rfl, hr, _⟩ := hinner _ level
      obtain ⟨⟨token, position⟩, qs, rfl, rfl, hqs⟩ := List.map_eq_cons_iff.mp hps
      obtain ⟨is, p, rs, rfl, rfl, hp, hrs⟩ := exists_of_map_append hqs
      obtain rfl := List.map_eq_nil_iff.mp hrs
      rw [List.cons_append, List.append_assoc]
      exact grouped_reads hr h hp position _ (Nat.lt_succ_self _)
  | call level function h =>
      obtain ⟨r, rfl, hr, hbegins⟩ := hinner _ level
      obtain ⟨⟨token, position⟩, qs, rfl, rfl, hqs⟩ := List.map_eq_cons_iff.mp hps
      obtain ⟨o, others, rfl, ho, hothers⟩ := List.map_eq_cons_iff.mp hqs
      obtain ⟨is, p, rs, rfl, rfl, hp, hrs⟩ := exists_of_map_append hothers
      obtain rfl := List.map_eq_nil_iff.mp hrs
      rw [List.cons_append, List.cons_append, List.append_assoc]
      exact call_reads hr hbegins function h ho hp position _ (Nat.lt_succ_self _)

/-- **Completeness** of reading operands, with any number of levels left, by induction on it. -/
theorem operandAt_reads (levels : Nat) :
    Reads (operandAt resolver stop levels) (Operand resolver levels) EndsOperand := by
  induction levels with
  | zero => exact operand_reads fun P h => nomatch h
  | succ levels ih =>
      refine operand_reads fun P h => ?_
      cases h
      exact ⟨_, rfl, ih, begins_operand levels⟩

end

end Verdict.Condition
