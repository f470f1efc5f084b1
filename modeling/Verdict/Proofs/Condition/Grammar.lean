/-
  The grammar of conditions — which tokens derive which condition.

  1. **Separated** — operands with `&&` between them, names with a point between them, arguments
     with a comma between them: one relation for all rows of the grammar.

  2. **Levels** — `Operand n`: an operand in which at most `n` negations, parentheses and calls
     enclose one another.  What stands inside one of them is derived with one level less, so the
     relation is defined by recursion on the number.

  3. **Trees** — one operand stands for itself, several are the parts of one node.

  Places play no part here: the grammar is about tokens.

  Core only.
-/
import Verdict.Condition.Reader

namespace Verdict.Condition

/-- One thing, or several with a sign between them. -/
inductive Separated {β : Type} (sign : Token) (P : List Token → β → Prop) :
    List Token → List β → Prop
  | one {ts : List Token} {b : β} (only : P ts b) : Separated sign P ts [b]
  | more {ts us : List Token} {b : β} {bs : List β} (first : P ts b)
      (others : Separated sign P us bs) : Separated sign P (ts ++ sign :: us) (b :: bs)

/-- The names of a path. -/
def PathOf (ts : List Token) (names : List String) : Prop :=
  Separated .dot (fun ts name => ts = [.name name]) ts names

/-- The literal of a comparison. -/
inductive LiteralOf : Token → Scalar → Prop
  | trueWord : LiteralOf .trueWord (.bool true)
  | falseWord : LiteralOf .falseWord (.bool false)
  | string {s : String} : LiteralOf (.string s) (.str s)
  | number {raw : String} {s : Scalar} (denotes : number? raw = some s) : LiteralOf (.number raw) s

section

variable {α : Type} (resolver : Resolver α)

/-- A path alone, or a path compared with a literal, that the resolver knows. -/
inductive AtomOf : List Token → Condition α → Prop
  | field {ts : List Token} {names : List String} {test : α} (path : PathOf ts names)
      (known : resolver.field (".".intercalate names) = some test) : AtomOf ts (.leaf test)
  | comparison {ts : List Token} {names : List String} {c : Comparator} {t : Token} {s : Scalar}
      {test : α} (path : PathOf ts names) (literal : LiteralOf t s)
      (known : resolver.comparison (".".intercalate names) c s = some test) :
      AtomOf (ts ++ [.comparator c, t]) (.leaf test)

/-- Operands with a sign between them. -/
def Chain (sign : Token) (node : List (Condition α) → Condition α)
    (P : List Token → Condition α → Prop) (ts : List Token) (c : Condition α) : Prop :=
  ∃ cs, Separated sign P ts cs ∧ c = joined node cs

/-- An expression of operands `P`: OR binds looser than AND. -/
def Expression (P : List Token → Condition α → Prop) : List Token → Condition α → Prop :=
  Chain .orSign .any (Chain .andSign .all P)

/-- The arguments of a call; there may be none. -/
inductive ArgumentsOf (P : List Token → Condition α → Prop) :
    List Token → List (Condition α) → Prop
  | none : ArgumentsOf P [] []
  | some {ts : List Token} {cs : List (Condition α)} (row : Separated .comma P ts cs) :
      ArgumentsOf P ts cs

/-- An operand; `inner` derives the operands one level deeper, if there is a level. -/
inductive OperandOf (inner : Option (List Token → Condition α → Prop)) :
    List Token → Condition α → Prop
  | trueWord : OperandOf inner [.trueWord] (.constant true)
  | falseWord : OperandOf inner [.falseWord] (.constant false)
  | atom {ts : List Token} {c : Condition α} (h : AtomOf resolver ts c) : OperandOf inner ts c
  | negation {P : List Token → Condition α → Prop} {ts : List Token} {c : Condition α}
      (level : inner = some P) (h : P ts c) : OperandOf inner (.notSign :: ts) (.not c)
  | group {P : List Token → Condition α → Prop} {ts : List Token} {c : Condition α}
      (level : inner = some P) (h : Expression P ts c) :
      OperandOf inner (.opening :: (ts ++ [.closing])) c
  | call {P : List Token → Condition α → Prop} {ts : List Token} {cs : List (Condition α)}
      {name : String} {node : List (Condition α) → Condition α} (level : inner = some P)
      (function : function? name = some node) (h : ArgumentsOf (Expression P) ts cs) :
      OperandOf inner (.name name :: .opening :: (ts ++ [.closing])) (node cs)

/-- An operand with at most so many levels inside it. -/
def Operand : Nat → List Token → Condition α → Prop
  | 0 => OperandOf resolver none
  | levels + 1 => OperandOf resolver (some (Operand levels))

end

/-! ## Rows -/

section

variable {α β : Type} {sign : Token} {P : List Token → β → Prop}

/-- Two rows with the sign between them are one row.  By induction on the first one. -/
theorem Separated.append {ts us : List Token} {bs cs : List β} (h : Separated sign P ts bs)
    (h' : Separated sign P us cs) : Separated sign P (ts ++ sign :: us) (bs ++ cs) := by
  induction h with
  | one only => exact .more only h'
  | more first _ ih =>
      rw [List.append_assoc, List.cons_append]
      exact .more first ih

end

/-! ## First tokens -/

/-- What is derived begins with a token, and with none that closes a parenthesis. -/
def Begins {β : Type} (P : List Token → β → Prop) : Prop :=
  ∀ ts b, P ts b → ∃ t us, ts = t :: us ∧ t ≠ .closing

/-- A row begins as its first entry does. -/
theorem Begins.separated {β : Type} {P : List Token → β → Prop} (h : Begins P) (sign : Token) :
    Begins (Separated sign P) := by
  intro ts bs hsep
  cases hsep with
  | one only => exact h _ _ only
  | more first _ =>
      obtain ⟨t, us, rfl, hne⟩ := h _ _ first
      exact ⟨t, _, rfl, hne⟩

section

variable {α : Type} {resolver : Resolver α}

theorem Begins.chain {P : List Token → Condition α → Prop} (h : Begins P) (sign : Token)
    (node : List (Condition α) → Condition α) : Begins (Chain sign node P) := by
  rintro ts c ⟨cs, hsep, _⟩
  exact h.separated sign ts cs hsep

theorem Begins.expression {P : List Token → Condition α → Prop} (h : Begins P) :
    Begins (Expression P) :=
  (h.chain .andSign .all).chain .orSign .any

theorem begins_pathOf : Begins PathOf := by
  have hname : Begins fun ts (name : String) => ts = [Token.name name] := by
    rintro ts name rfl
    exact ⟨_, [], rfl, nofun⟩
  exact hname.separated .dot

/-- **No operand begins with a closing parenthesis**, so what follows an opening one tells whether
    there is an argument.  Atoms begin with a name; every other operand shows its first token. -/
theorem begins_operandOf (inner : Option (List Token → Condition α → Prop)) :
    Begins (OperandOf resolver inner) := by
  intro ts c h
  cases h with
  | trueWord => exact ⟨_, _, rfl, nofun⟩
  | falseWord => exact ⟨_, _, rfl, nofun⟩
  | negation _ _ => exact ⟨_, _, rfl, nofun⟩
  | group _ _ => exact ⟨_, _, rfl, nofun⟩
  | call _ _ _ => exact ⟨_, _, rfl, nofun⟩
  | atom h =>
      -- A field or a comparison: both begin with a path.
      cases h with
      | field path _ => exact begins_pathOf _ _ path
      | comparison path _ _ =>
          obtain ⟨t, us, rfl, hne⟩ := begins_pathOf _ _ path
          exact ⟨t, _, rfl, hne⟩

theorem begins_operand (levels : Nat) : Begins (Operand resolver levels) := by
  cases levels with
  | zero => exact begins_operandOf none
  | succ levels => exact begins_operandOf (some _)

end

end Verdict.Condition
