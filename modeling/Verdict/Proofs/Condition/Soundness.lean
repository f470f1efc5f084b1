/-
  Soundness of reading — whatever is read is derived from the tokens that were taken.

  1. **Specification** — `Derived r P`: if `r` reads something from a row of tokens, the row begins
     with tokens from which `P` derives it, and what is left is what stands behind them.

  2. **Rows** — a loop holds what it has read in an accumulator.  Its lemma says that a row that was
     derived so far is LENGTHENED by what the loop takes; the induction is on the loop itself.

  3. **Operands** — one lemma for each reader that a first token may hand over to: `negated`,
     `grouped`, `named`.

  4. **Theorem** — with completeness, reading decides the grammar: `read_eq_ok_iff`.  A row of
     tokens derives one condition at most, however many levels the derivations use
     (`expression_unique`), for two derivations are read by ONE reader with levels enough for both.

  Core only.
-/
import Verdict.Proofs.Condition.Completeness

namespace Verdict.Condition

variable {α β : Type}

/-! ## The specification -/

/-- What the reader reads is derived from the tokens that it takes. -/
def Derived (r : Reader β) (P : List Token → β → Prop) : Prop :=
  ∀ (tokens : List Placed) (b : β) (rest : List Placed) (h : rest.length < tokens.length),
    r tokens = .ok ⟨b, rest, h⟩ →
      ∃ ps, tokens = ps ++ rest ∧ P (ps.map Placed.token) b

/-! ## Single tokens -/

/-- A sign that was taken stood in front. -/
theorem eq_cons_of_past? {sign : Token} {tokens rest : List Placed} {u : Unit}
    {h : rest.length < tokens.length} (hpast : past? sign tokens = some ⟨u, rest, h⟩) :
    ∃ t, tokens = t :: rest ∧ t.token = sign := by
  cases tokens with
  | nil => cases hpast
  | cons t others =>
      rw [past?] at hpast
      split at hpast
      · rename_i hsign
        cases hpast
        exact ⟨t, rfl, hsign⟩
      · cases hpast

theorem eq_cons_of_pastName? {tokens rest : List Placed} {name : String}
    {h : rest.length < tokens.length} (hpast : pastName? tokens = some ⟨name, rest, h⟩) :
    ∃ position, tokens = ⟨.name name, position⟩ :: rest := by
  unfold pastName? at hpast
  split at hpast
  · rename_i n position others
    cases hpast
    exact ⟨position, rfl⟩
  · cases hpast

theorem eq_cons_of_pastComparator? {tokens rest : List Placed} {c : Comparator}
    {h : rest.length < tokens.length} (hpast : pastComparator? tokens = some ⟨c, rest, h⟩) :
    ∃ position, tokens = ⟨.comparator c, position⟩ :: rest := by
  unfold pastComparator? at hpast
  split at hpast
  · rename_i c' position others
    cases hpast
    exact ⟨position, rfl⟩
  · cases hpast

/-! ## Literals and paths -/

/-- What is read as a literal is one token that denotes it. -/
theorem literal_derived (stop : Nat) {tokens rest : List Placed} {s : Scalar}
    {h : rest.length < tokens.length} (hread : literal stop tokens = .ok ⟨s, rest, h⟩) :
    ∃ t, tokens = t :: rest ∧ LiteralOf t.token s := by
  unfold literal at hread
  split at hread
  · cases hread
    exact ⟨_, rfl, .trueWord⟩
  · cases hread
    exact ⟨_, rfl, .falseWord⟩
  · cases hread
    exact ⟨_, rfl, .string⟩
  · rename_i raw position others
    split at hread
    · rename_i n hnumber
      cases hread
      exact ⟨_, rfl, .number hnumber⟩
    · cases hread
  · cases hread

/-- Further names lengthen the path that was read so far.  The induction is on the loop: it stops
    where no point follows, fails where no name follows the point, and goes on behind a name. -/
theorem furtherNames_derived {stop : Nat} {start tokens rest : List Placed}
    {done names : List String} {hlt : tokens.length < start.length} {h : rest.length < start.length}
    (hread : furtherNames stop done tokens hlt = .ok ⟨names, rest, h⟩) {ts : List Token}
    (hdone : PathOf ts done.reverse) :
    ∃ ps, tokens = ps ++ rest ∧ PathOf (ts ++ ps.map Placed.token) names := by
  fun_induction furtherNames stop done tokens hlt generalizing ts with
  | case1 =>
      cases hread
      refine ⟨[], rfl, ?_⟩
      rw [List.map_nil, List.append_nil]
      exact hdone
  | case2 => cases hread
  | case3 done tokens hlt others h₁ hpoint n further h₂ hname ih =>
      -- A point and a name were taken: with them the path read so far is longer by one name.
      obtain ⟨p, rfl, hp⟩ := eq_cons_of_past? hpoint
      obtain ⟨position, rfl⟩ := eq_cons_of_pastName? hname
      have hlonger : PathOf (ts ++ [.dot, .name n]) (n :: done).reverse := by
        rw [List.reverse_cons]
        exact Separated.append hdone (.one rfl)
      obtain ⟨ps, rfl, hpath⟩ := ih hread hlonger
      refine ⟨p :: ⟨.name n, position⟩ :: ps, rfl, ?_⟩
      rw [List.map_cons, List.map_cons, hp]
      rw [List.append_assoc] at hpath
      exact hpath

section

variable {resolver : Resolver α} {stop : Nat}

/-- An atom is derived from its first name and what was read behind it. -/
theorem atom_derived {start tokens rest : List Placed} {name : String} {position : Nat}
    {c : Condition α} {hlt : tokens.length < start.length} {h : rest.length < start.length}
    (hread : atom resolver stop name position tokens hlt = .ok ⟨c, rest, h⟩) :
    ∃ ps, tokens = ps ++ rest ∧ AtomOf resolver (.name name :: ps.map Placed.token) c := by
  unfold atom at hread
  split at hread
  · cases hread
  rename_i names others hothers hnames
  have hhead : PathOf [.name name] [name] := .one rfl
  obtain ⟨ps, rfl, hpath⟩ := furtherNames_derived hnames hhead
  dsimp only at hread
  split at hread
  · -- Nothing is compared: the path is the atom.
    split at hread
    · rename_i test hknown
      cases hread
      exact ⟨ps, rfl, .field hpath hknown⟩
    · cases hread
  · -- A comparator, and the literal that has to stand behind it.
    rename_i comparator further hfurther hcomparator
    obtain ⟨place, rfl⟩ := eq_cons_of_pastComparator? hcomparator
    split at hread
    · cases hread
    rename_i s behind hbehind hliteral
    obtain ⟨t, rfl, hlit⟩ := literal_derived stop hliteral
    split at hread
    · rename_i test hknown
      cases hread
      refine ⟨ps ++ [⟨.comparator comparator, place⟩, t], ?_, ?_⟩
      · rw [List.append_assoc]
        rfl
      · rw [List.map_append]
        exact .comparison hpath hlit hknown
    · cases hread

end

/-! ## Chains and arguments -/

section

variable {r : Reader (Condition α)} {P : List Token → Condition α → Prop}

/-- Further operands lengthen the row that was read so far, one sign and one operand at a time. -/
theorem furtherOperands_derived (hr : Derived r P) {sign : Token} {start tokens rest : List Placed}
    {done cs : List (Condition α)} {hlt : tokens.length < start.length}
    {h : rest.length < start.length}
    (hread : furtherOperands sign r done tokens hlt = .ok ⟨cs, rest, h⟩) {ts : List Token}
    (hdone : Separated sign P ts done.reverse) :
    ∃ ps, tokens = ps ++ rest ∧ Separated sign P (ts ++ ps.map Placed.token) cs := by
  fun_induction furtherOperands sign r done tokens hlt generalizing ts with
  | case1 =>
      cases hread
      refine ⟨[], rfl, ?_⟩
      rw [List.map_nil, List.append_nil]
      exact hdone
  | case2 => cases hread
  | case3 done tokens hlt others h₁ hsign c further h₂ hoperand ih =>
      -- A sign and an operand were taken, and the loop went on behind them.
      obtain ⟨p, rfl, hp⟩ := eq_cons_of_past? hsign
      obtain ⟨qs, rfl, hqs⟩ := hr _ _ _ _ hoperand
      have hlonger : Separated sign P (ts ++ sign :: qs.map Placed.token) (c :: done).reverse := by
        rw [List.reverse_cons]
        exact hdone.append (.one hqs)
      obtain ⟨ps, rfl, hrow⟩ := ih hread hlonger
      refine ⟨p :: (qs ++ ps), ?_, ?_⟩
      · rw [List.cons_append, List.append_assoc]
      · rw [List.map_cons, hp, List.map_append]
        rw [List.append_assoc, List.cons_append] at hrow
        exact hrow

/-- A chain is a first operand and what the loop takes behind it. -/
theorem chain_derived (hr : Derived r P) (sign : Token)
    (node : List (Condition α) → Condition α) :
    Derived (chain sign node r) (Chain sign node P) := by
  intro tokens c rest h hread
  unfold chain at hread
  split at hread
  · cases hread
  rename_i first others hothers hfirst
  split at hread
  · cases hread
  rename_i cs behind hbehind hfurther
  cases hread
  obtain ⟨ps, rfl, hps⟩ := hr _ _ _ _ hfirst
  obtain ⟨qs, rfl, hrow⟩ := furtherOperands_derived hr hfurther (.one hps)
  refine ⟨ps ++ qs, ?_, cs, ?_, rfl⟩
  · rw [List.append_assoc]
  · rw [List.map_append]
    exact hrow

/-- **An expression is derived** if its operands are. -/
theorem expression_derived (hr : Derived r P) : Derived (expression r) (Expression P) :=
  chain_derived (chain_derived hr .andSign .all) .orSign .any

/-- The next argument completes a row of arguments: what was read before is nothing, or a row with
    a comma behind it. -/
def Awaits (P : List Token → Condition α → Prop) (ts : List Token) (cs : List (Condition α)) :
    Prop :=
  ∀ us c, P us c → Separated .comma P (ts ++ us) (cs ++ [c])

theorem awaits_nil : Awaits P [] [] := fun _ _ h => .one h

theorem Awaits.comma {ts : List Token} {cs : List (Condition α)} (h : Separated .comma P ts cs) :
    Awaits P (ts ++ [.comma]) cs := by
  intro us c hc
  rw [List.append_assoc]
  exact h.append (.one hc)

/-- Further arguments complete the row that was read so far; behind them stands the parenthesis
    that closes the call. -/
theorem furtherArguments_derived (hr : Derived r P) {stop : Nat} {start tokens rest : List Placed}
    {done cs : List (Condition α)} {hlt : tokens.length < start.length}
    {h : rest.length < start.length}
    (hread : furtherArguments stop r done tokens hlt = .ok ⟨cs, rest, h⟩) {ts : List Token}
    (hdone : Awaits P ts done.reverse) :
    ∃ ps q, tokens = ps ++ q :: rest ∧ q.token = .closing
      ∧ Separated .comma P (ts ++ ps.map Placed.token) cs := by
  fun_induction furtherArguments stop r done tokens hlt generalizing ts with
  | case1 => cases hread
  | case2 done tokens hlt c others h₁ hargument further h₂ hcomma ih =>
      -- A comma follows the argument: it completes one row and another argument is awaited.
      obtain ⟨qs, rfl, hqs⟩ := hr _ _ _ _ hargument
      obtain ⟨p, rfl, hp⟩ := eq_cons_of_past? hcomma
      have hrow : Separated .comma P (ts ++ qs.map Placed.token) (c :: done).reverse := by
        rw [List.reverse_cons]
        exact hdone _ _ hqs
      obtain ⟨ps, q, rfl, hq, hall⟩ := ih hread (.comma hrow)
      refine ⟨qs ++ p :: ps, q, ?_, hq, ?_⟩
      · rw [List.append_assoc, List.cons_append]
      · rw [List.map_append, List.map_cons, hp]
        rw [List.append_assoc, List.append_assoc] at hall
        exact hall
  | case3 done tokens hlt c others h₁ hargument _ further h₂ hclosing =>
      -- The parenthesis follows: this was the last argument.
      cases hread
      obtain ⟨qs, rfl, hqs⟩ := hr _ _ _ _ hargument
      obtain ⟨q, rfl, hq⟩ := eq_cons_of_past? hclosing
      refine ⟨qs, q, rfl, hq, ?_⟩
      rw [List.reverse_cons]
      exact hdone _ _ hqs
  | case4 => cases hread

/-- The arguments of a call: none where the parenthesis closes at once, or a row of them. -/
theorem arguments_derived (hr : Derived r P) {stop : Nat} {start tokens rest : List Placed}
    {cs : List (Condition α)} {hlt : tokens.length < start.length} {h : rest.length < start.length}
    (hread : arguments stop r tokens hlt = .ok ⟨cs, rest, h⟩) :
    ∃ ps q, tokens = ps ++ q :: rest ∧ q.token = .closing
      ∧ ArgumentsOf P (ps.map Placed.token) cs := by
  unfold arguments at hread
  split at hread
  · rename_i others hothers hclosing
    cases hread
    obtain ⟨q, rfl, hq⟩ := eq_cons_of_past? hclosing
    exact ⟨[], q, rfl, hq, .none⟩
  · obtain ⟨ps, q, htokens, hq, hrow⟩ := furtherArguments_derived hr hread awaits_nil
    exact ⟨ps, q, htokens, hq, .some hrow⟩

end

/-! ## Operands -/

section

variable {resolver : Resolver α} {stop : Nat}

section

variable {inner : Option (Reader (Condition α))}
  {P? : Option (List Token → Condition α → Prop)}
  (hinner : ∀ r, inner = some r → ∃ P, P? = some P ∧ Derived r P)
include hinner

/-- What is read behind a negation sign is an operand one level deeper, if there is a level. -/
theorem negated_derived {position : Nat} {start tokens rest : List Placed} {c : Condition α}
    {hlt : tokens.length < start.length} {h : rest.length < start.length}
    (hread : negated inner position tokens hlt = .ok ⟨c, rest, h⟩) :
    ∃ ps, tokens = ps ++ rest
      ∧ OperandOf resolver P? (.notSign :: ps.map Placed.token) c := by
  unfold negated at hread
  split at hread
  · cases hread
  rename_i r
  obtain ⟨P, rfl, hr⟩ := hinner r rfl
  split at hread
  · cases hread
  rename_i c' further hfurther hoperand
  cases hread
  obtain ⟨ps, rfl, hps⟩ := hr _ _ _ _ hoperand
  exact ⟨ps, rfl, .negation rfl hps⟩

/-- What is read behind an opening parenthesis is an expression one level deeper, and the
    parenthesis that closes it. -/
theorem grouped_derived {position : Nat} {start tokens rest : List Placed} {c : Condition α}
    {hlt : tokens.length < start.length} {h : rest.length < start.length}
    (hread : grouped stop inner position tokens hlt = .ok ⟨c, rest, h⟩) :
    ∃ ps, tokens = ps ++ rest
      ∧ OperandOf resolver P? (.opening :: ps.map Placed.token) c := by
  unfold grouped at hread
  split at hread
  · cases hread
  rename_i r
  obtain ⟨P, rfl, hr⟩ := hinner r rfl
  split at hread
  · cases hread
  rename_i c' further hfurther hexpression
  obtain ⟨ps, rfl, hps⟩ := expression_derived hr _ _ _ _ hexpression
  split at hread
  · rename_i behind hbehind hclosing
    cases hread
    obtain ⟨q, rfl, hq⟩ := eq_cons_of_past? hclosing
    refine ⟨ps ++ [q], ?_, ?_⟩
    · rw [List.append_assoc]
      rfl
    · rw [List.map_append, List.map_singleton, hq]
      exact .group rfl hps
  · cases hread

/-- What is read behind a name belongs to an atom; or it is the arguments of a call, if the name
    is a function's and a parenthesis follows it. -/
theorem named_derived {name : String} {position : Nat} {start tokens rest : List Placed}
    {c : Condition α} {hlt : tokens.length < start.length} {h : rest.length < start.length}
    (hread : named resolver stop inner name position tokens hlt = .ok ⟨c, rest, h⟩) :
    ∃ ps, tokens = ps ++ rest
      ∧ OperandOf resolver P? (.name name :: ps.map Placed.token) c := by
  unfold named at hread
  split at hread
  · obtain ⟨ps, rfl, hatom⟩ := atom_derived hread
    exact ⟨ps, rfl, .atom hatom⟩
  rename_i further hfurther hopening
  obtain ⟨o, rfl, ho⟩ := eq_cons_of_past? hopening
  split at hread
  · cases hread
  rename_i r
  obtain ⟨P, rfl, hr⟩ := hinner r rfl
  split at hread
  · cases hread
  rename_i node hfunction
  split at hread
  · cases hread
  rename_i cs behind hbehind hargs
  cases hread
  obtain ⟨ps, q, rfl, hq, hrow⟩ := arguments_derived (expression_derived hr) hargs
  refine ⟨o :: (ps ++ [q]), ?_, ?_⟩
  · rw [List.cons_append, List.append_assoc]
    rfl
  · rw [List.map_cons, List.map_append, List.map_singleton, ho, hq]
    exact .call rfl hfunction hrow

/-- An operand is derived if those one level deeper are.  The first token has decided which reader
    went on, and with it which rule of the grammar applies. -/
theorem operand_derived : Derived (operand resolver stop inner) (OperandOf resolver P?) := by
  intro tokens c rest h hread
  unfold operand at hread
  split at hread
  · rename_i position others
    obtain ⟨ps, rfl, hnegation⟩ := negated_derived hinner hread
    exact ⟨⟨.notSign, position⟩ :: ps, rfl, hnegation⟩
  · rename_i position others
    obtain ⟨ps, rfl, hgroup⟩ := grouped_derived hinner hread
    exact ⟨⟨.opening, position⟩ :: ps, rfl, hgroup⟩
  · rename_i name position others
    obtain ⟨ps, rfl, hnamed⟩ := named_derived hinner hread
    exact ⟨⟨.name name, position⟩ :: ps, rfl, hnamed⟩
  · rename_i position others
    cases hread
    exact ⟨[⟨.trueWord, position⟩], rfl, .trueWord⟩
  · rename_i position others
    cases hread
    exact ⟨[⟨.falseWord, position⟩], rfl, .falseWord⟩
  · -- A number, and below anything else: no operand begins so.
    cases hread
  · cases hread

end

/-- **Soundness** of reading operands, with any number of levels left.  The induction is on the
    levels; with none left there is no reader for what stands inside. -/
theorem operandAt_derived (levels : Nat) :
    Derived (operandAt resolver stop levels) (Operand resolver levels) := by
  induction levels with
  | zero =>
      refine operand_derived fun r h => ?_
      cases h
  | succ levels ih =>
      refine operand_derived fun r h => ?_
      cases h
      exact ⟨_, rfl, ih⟩

end

/-! ## Levels -/

theorem Separated.mono {sign : Token} {P Q : List Token → β → Prop} (hPQ : ∀ ts b, P ts b → Q ts b)
    {ts : List Token} {bs : List β} (h : Separated sign P ts bs) : Separated sign Q ts bs := by
  induction h with
  | one only => exact .one (hPQ _ _ only)
  | more first _ ih => exact .more (hPQ _ _ first) ih

section

variable {P Q : List Token → Condition α → Prop} {resolver : Resolver α}

theorem Chain.mono (hPQ : ∀ ts c, P ts c → Q ts c) {sign : Token}
    {node : List (Condition α) → Condition α} (ts : List Token) (c : Condition α)
    (h : Chain sign node P ts c) : Chain sign node Q ts c := by
  obtain ⟨cs, hsep, hc⟩ := h
  exact ⟨cs, hsep.mono hPQ, hc⟩

theorem Expression.mono (hPQ : ∀ ts c, P ts c → Q ts c) (ts : List Token) (c : Condition α)
    (h : Expression P ts c) : Expression Q ts c :=
  Chain.mono (Chain.mono hPQ) ts c h

/-- An operand stays one where what may stand inside is derived by more. -/
theorem OperandOf.mono {inner more : Option (List Token → Condition α → Prop)}
    (hmore : ∀ P, inner = some P → ∃ Q, more = some Q ∧ ∀ ts c, P ts c → Q ts c)
    (ts : List Token) (c : Condition α) (h : OperandOf resolver inner ts c) :
    OperandOf resolver more ts c := by
  cases h with
  | trueWord => exact .trueWord
  | falseWord => exact .falseWord
  | atom h => exact .atom h
  | negation level h =>
      obtain ⟨Q, hQ, hPQ⟩ := hmore _ level
      exact .negation hQ (hPQ _ _ h)
  | group level h =>
      obtain ⟨Q, hQ, hPQ⟩ := hmore _ level
      exact .group hQ (Expression.mono hPQ _ _ h)
  | call level function h =>
      obtain ⟨Q, hQ, hPQ⟩ := hmore _ level
      refine .call hQ function ?_
      cases h with
      | none => exact .none
      | some row => exact .some (row.mono (Expression.mono hPQ))

/-- What can be derived with some levels can be derived with more: the number bounds a derivation,
    it does not change it. -/
theorem Operand.mono {levels more : Nat} (hle : levels ≤ more) (ts : List Token)
    (c : Condition α) (h : Operand resolver levels ts c) : Operand resolver more ts c := by
  induction levels generalizing more ts c with
  | zero =>
      cases more with
      | zero => exact h
      | succ more =>
          refine OperandOf.mono (fun P hP => ?_) ts c h
          cases hP
  | succ levels ih =>
      cases more with
      | zero => exact absurd hle (Nat.not_succ_le_zero levels)
      | succ more =>
          refine OperandOf.mono (fun P hP => ?_) ts c h
          cases hP
          exact ⟨_, rfl, ih (Nat.le_of_succ_le_succ hle)⟩

/-! ## The grammar decided -/

/-- A row of tokens is read as an expression, to its end, exactly if it derives one: soundness in
    one direction, completeness in the other. -/
theorem expression_eq_ok_iff (stop : Nat) {levels : Nat} {tokens : List Placed} {c : Condition α} :
    (∃ h, expression (operandAt resolver stop levels) tokens = .ok ⟨c, [], h⟩)
      ↔ Expression (Operand resolver levels) (tokens.map Placed.token) c := by
  constructor
  · rintro ⟨h, hread⟩
    obtain ⟨ps, hps, hderives⟩ := expression_derived (operandAt_derived levels) _ _ _ _ hread
    rw [List.append_nil] at hps
    exact hps ▸ hderives
  · intro hderives
    exact expression_reads (operandAt_reads levels) tokens tokens c [] (List.append_nil _).symm
      hderives endsExpression_nil

/-- **One tree.**  A row of tokens derives one condition at most.  Both derivations are derivations
    with the larger number of levels, so ONE reader reads both, and a reader is a function. -/
theorem expression_unique {m n : Nat} {ts : List Token} {c d : Condition α}
    (hc : Expression (Operand resolver m) ts c) (hd : Expression (Operand resolver n) ts d) :
    c = d := by
  -- Any places will do: the grammar does not see them.
  have hplaced : (ts.map fun t => (⟨t, 0⟩ : Placed)).map Placed.token = ts := by
    rw [List.map_map]
    exact List.map_id ts
  have hc' := Expression.mono (Operand.mono (Nat.le_max_left m n)) ts c hc
  have hd' := Expression.mono (Operand.mono (Nat.le_max_right m n)) ts d hd
  rw [← hplaced] at hc' hd'
  obtain ⟨h, hread⟩ := (expression_eq_ok_iff 0).mpr hc'
  obtain ⟨h', hread'⟩ := (expression_eq_ok_iff 0).mpr hd'
  have hsame := hread.symm.trans hread'
  cases hsame
  rfl

/-- What a text has to pass to be read, stage after stage: length, tokens, some token, an expression
    to the end, and the bounds. -/
theorem read_eq_ok_iff_stages {text : String} {c : Condition α} :
    read resolver text = .ok c ↔
      text.utf8ByteSize ≤ maxTextBytes
        ∧ ∃ tokens, scan text = .ok tokens ∧ tokens ≠ []
          ∧ (∃ h, expression (operandAt resolver text.utf8ByteSize maxNesting) tokens
              = .ok ⟨c, [], h⟩)
          ∧ Bounds.default.check c = .ok () := by
  unfold read
  dsimp only [bind, Except.bind]
  constructor
  · -- Each stage either fails, or leaves a fact behind.
    intro hread
    split at hread
    · cases hread
    rename_i hbytes
    split at hread
    · cases hread
    rename_i tokens hscan
    split at hread
    · cases hread
    rename_i hsome
    split at hread
    · cases hread
    rename_i parsed hparsed
    obtain ⟨c', rest, h⟩ := parsed
    dsimp only at hread
    split at hread
    · cases hread
    split at hread
    · cases hread
    rename_i hcheck
    cases hread
    have hne : tokens ≠ [] := by
      rintro rfl
      exact hsome rfl
    exact ⟨Nat.not_lt.mp hbytes, tokens, hscan, hne, ⟨h, hparsed⟩, hcheck⟩
  · rintro ⟨hbytes, tokens, hscan, hne, ⟨h, hparsed⟩, hcheck⟩
    have hsome : tokens.isEmpty = false := List.isEmpty_eq_false_iff.mpr hne
    rw [if_neg (Nat.not_lt.mpr hbytes), hscan]
    dsimp only
    rw [hsome, if_neg Bool.false_ne_true, hparsed]
    dsimp only
    rw [hcheck]
    rfl

/-- **Reading decides the grammar.**  A text is read as a condition exactly if it has no more bytes
    than texts may have, its tokens derive the condition with 32 levels, and the condition is within
    its bounds; and the condition is the only one that its tokens derive, with any levels. -/
theorem read_eq_ok_iff (resolver : Resolver α) (text : String) (c : Condition α) :
    (read resolver text = .ok c ↔
      text.utf8ByteSize ≤ 1024 * 1024
        ∧ (∃ tokens, scan text = .ok tokens ∧ tokens ≠ []
            ∧ Expression (Operand resolver 32) (tokens.map Placed.token) c)
        ∧ c.depth ≤ 32 ∧ c.size ≤ 4096)
      ∧ ∀ (ts : List Token) (m n : Nat) (d e : Condition α),
          Expression (Operand resolver m) ts d → Expression (Operand resolver n) ts e → d = e := by
  refine ⟨read_eq_ok_iff_stages.trans ⟨?_, ?_⟩, fun ts m n d e => expression_unique⟩
  · rintro ⟨hbytes, tokens, hscan, hne, hread, hcheck⟩
    have hderives := (expression_eq_ok_iff text.utf8ByteSize).mp hread
    exact ⟨hbytes, ⟨tokens, hscan, hne, hderives⟩, Bounds.check_eq_ok_iff.mp hcheck⟩
  · rintro ⟨hbytes, ⟨tokens, hscan, hne, hderives⟩, hbounds⟩
    have hread := (expression_eq_ok_iff text.utf8ByteSize).mpr hderives
    exact ⟨hbytes, tokens, hscan, hne, hread, Bounds.check_eq_ok_iff.mpr hbounds⟩

end

end Verdict.Condition
