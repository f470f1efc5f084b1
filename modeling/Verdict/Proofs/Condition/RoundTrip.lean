/-
  Round trip — a condition on fields read back from its own text.

  1. **Atoms** — a path that can be parsed is written as its names with points between them and read
     as itself; every literal is written as one token that denotes it, a float if it is finite.

  2. **Reading** — a text that is written as an expression is read as that expression, if it is no
     longer than texts may be and the result is within bounds (`read_written`).

  3. **Theorem** — what is read back is the FLAT form of the condition (`text_read_back`).  It asks
     the same tests in the same order with the same answer, has the same text and is no deeper and
     no larger; the nodes that the text does not show are gone.
-/
import Verdict.FieldTest
import Verdict.Proofs.Condition.Numerals
import Verdict.Proofs.Name

namespace Verdict

open Condition

/-! ## Names and paths -/

/-- An identifier is a word, and the condition language keeps no such word for itself. -/
theorem ofWord_of_isIdentifier {name : String} (h : isIdentifier name = true) :
    Token.ofWord name = .name name := by
  rw [isIdentifier, Bool.and_eq_true, Bool.not_eq_true'] at h
  unfold Token.ofWord
  split
  case h_6 => rfl
  -- Each of the five words that are tokens of their own is reserved.
  all_goals exact absurd h.2 (by decide)

/-- An identifier is spelled as the token of its name, up to where no name goes on. -/
theorem written_name {name : String} (h : isIdentifier name = true) :
    Written (continuesName · = false) PathOf name [name] := by
  refine ⟨?_, [.name name], ?_, .one rfl⟩
  · obtain ⟨c, cs, hname, hstarts, _⟩ := eq_cons_of_isIdentifier h
    refine ⟨c, cs, hname, ?_⟩
    rintro rfl
    cases hstarts
  · rw [← ofWord_of_isIdentifier h]
    rw [isIdentifier, Bool.and_eq_true] at h
    exact spells_word name h.1

/-- A path that can be parsed is written as its names, with points between them. -/
theorem FieldPath.Parsed.written {p : FieldPath} (h : p.Parsed) :
    Written (continuesName · = false) PathOf p.text p.names := by
  have hpoint : Spells (fun _ => True) ".".toList [.dot] := spells_dot
  have hstops : ∃ s others, ".".toList = s :: others ∧ continuesName s = false := ⟨_, _, rfl, rfl⟩
  have hne : p.names ≠ [] := List.cons_ne_nil p.head.text p.restNames
  have hrow := written_row hpoint hstops id (fun n => [n]) hne
    fun n hn => written_name (parsed_iff.mp h n hn)
  rw [List.map_id, List.flatMap_singleton'] at hrow
  exact hrow

/-! ## Literals -/

theorem follows_endsNumber (c : Char) (h : Follows c) : EndsNumber c := by
  rcases h with rfl | rfl <;> exact ⟨rfl, by decide⟩

/-- Digits are spelled as one number. -/
theorem Condition.spells_signed (negative : Bool) {digits : List Char}
    (h : Decimal.IsDigits digits) :
    Spells Follows (signed negative digits).toList [.number (signed negative digits)] := by
  obtain ⟨hne, hdigits⟩ := h
  unfold signed
  rw [String.toList_ofList]
  refine Spells.mono ?_ follows_endsNumber
  cases negative with
  | true => exact spells_whole (Or.inl rfl) hdigits
  | false =>
      cases digits with
      | nil => exact absurd rfl hne
      | cons d ds =>
          obtain ⟨hd, hds⟩ := List.forall_mem_cons.mp hdigits
          exact spells_whole (Or.inr hd) hds

/-- A decimal is spelled as one number. -/
theorem Condition.spells_signed_decimal (negative : Bool) {whole fraction : List Char}
    (h : Decimal.IsDigits whole) (h' : Decimal.IsDigits fraction) :
    Spells Follows (signed negative (whole ++ '.' :: fraction)).toList
      [.number (signed negative (whole ++ '.' :: fraction))] := by
  obtain ⟨hne, hwhole⟩ := h
  obtain ⟨hne', hfraction⟩ := h'
  unfold signed
  rw [String.toList_ofList]
  refine Spells.mono ?_ follows_endsNumber
  cases fraction with
  | nil => exact absurd rfl hne'
  | cons f fs =>
      obtain ⟨hf, hfs⟩ := List.forall_mem_cons.mp hfraction
      cases negative with
      | true => exact spells_decimal (Or.inl rfl) hwhole hf hfs
      | false =>
          cases whole with
          | nil => exact absurd rfl hne
          | cons d ds =>
              obtain ⟨hd, hds⟩ := List.forall_mem_cons.mp hwhole
              exact spells_decimal (Or.inr hd) hds hf hfs

/-- **A literal** is written as one token, which denotes it: a number as its numeral. -/
theorem Scalar.written (s : Scalar) (h : ∀ x, s = .float x → Decimal.isFinite x = true) :
    ∃ t, LiteralOf t s ∧ Spells Follows s.text.toList [t] := by
  cases s with
  | bool b =>
      cases b with
      | true => exact ⟨_, .trueWord, (spells_word "true" rfl).mono follows_not_continuesName⟩
      | false => exact ⟨_, .falseWord, (spells_word "false" rfl).mono follows_not_continuesName⟩
  | int n =>
      refine ⟨_, .number (number?_integer n), ?_⟩
      rw [Scalar.text, ofList_integer]
      exact spells_signed _ (Decimal.isDigits_natural n.toInt.natAbs)
  | float x =>
      have hx := h x rfl
      obtain ⟨whole, fraction, htext, hwhole, hfraction, _⟩ := Decimal.text_spec hx
      have hsigned : Scalar.text (.float x)
          = signed (Decimal.isNegative x) (whole ++ '.' :: fraction) := htext
      have hdenotes : LiteralOf (.number (Scalar.text (.float x))) (.float x) :=
        .number (number?_float hx)
      rw [hsigned] at hdenotes ⊢
      exact ⟨_, hdenotes, spells_signed_decimal _ hwhole hfraction⟩
  | str s => exact ⟨_, .string, (spells_quote s).mono fun _ _ => trivial⟩

/-! ## Reading -/

/-- **A written expression is read.**  The text spells the tokens, the grammar derives the condition
    from them, and so the reader finds it: of the five questions it asks, bytes, tokens, an empty
    row, grammar and bounds, each is answered by one hypothesis. -/
theorem Condition.read_written {α : Type} {resolver : Resolver α} {text : String} {c : Condition α}
    (h : Written Follows (Expression (Operand resolver maxNesting)) text c)
    (hbytes : text.utf8ByteSize ≤ maxTextBytes) (hdepth : c.depth ≤ Bounds.default.maxDepth)
    (hsize : c.size ≤ Bounds.default.maxNodes) : read resolver text = .ok c := by
  obtain ⟨ts, hspells, hts⟩ := h.spells
  obtain ⟨placed, htokens, hscan⟩ := scan_of_spells hspells
  obtain ⟨t, us, hfirst, _⟩ := (begins_operand maxNesting).expression ts c hts
  have hne : placed ≠ [] := by
    rintro rfl
    rw [hfirst] at htokens
    cases htokens
  rw [← htokens] at hts
  have hread := (expression_eq_ok_iff text.utf8ByteSize).mpr hts
  exact read_eq_ok_iff_stages.mpr
    ⟨hbytes, placed, hscan, hne, hread, Bounds.check_eq_ok_iff.mpr ⟨hdepth, hsize⟩⟩

/-! ## What is asked -/

section

variable {α : Type} {resolver : Resolver α} {T : α → Prop}

/-- Every test of what is derived is one of `T`. -/
def Condition.Asks (T : α → Prop) (P : List Token → Condition α → Prop) : Prop :=
  ∀ ts c, P ts c → ∀ t ∈ c.leaves, T t

namespace Condition.Asks

variable {P : List Token → Condition α → Prop}

/-- A row asks what its entries ask. -/
theorem row (h : Asks T P) {sign : Token} {ts : List Token} {cs : List (Condition α)}
    (hrow : Separated sign P ts cs) : ∀ t ∈ cs.flatMap leaves, T t := by
  induction hrow with
  | one only =>
      rw [List.flatMap_singleton]
      exact h _ _ only
  | more first _ ih =>
      rw [List.flatMap_cons]
      exact List.forall_mem_append.mpr ⟨h _ _ first, ih⟩

theorem chain (h : Asks T P) (op : Operator) : Asks T (Chain op.sign op.node P) := by
  rintro ts c ⟨cs, hrow, rfl⟩
  rw [op.leaves_joined]
  exact h.row hrow

theorem expression (h : Asks T P) : Asks T (Expression P) := (h.chain .and).chain .or

/-- An operand asks what its atoms ask, and what stands inside it.  One case for each rule of the
    grammar. -/
theorem operandOf (hfield : ∀ path t, resolver.field path = some t → T t)
    (hcomparison : ∀ path c s t, resolver.comparison path c s = some t → T t)
    {inner : Option (List Token → Condition α → Prop)} (h : ∀ P, inner = some P → Asks T P) :
    Asks T (OperandOf resolver inner) := by
  intro ts c hts
  cases hts with
  | trueWord => exact List.forall_mem_nil _
  | falseWord => exact List.forall_mem_nil _
  | atom hatom =>
      cases hatom with
      | field _ known => exact List.forall_mem_singleton.mpr (hfield _ _ known)
      | comparison _ _ known => exact List.forall_mem_singleton.mpr (hcomparison _ _ _ _ known)
  | @negation P us c level hpart =>
      show ∀ t ∈ c.leaves, T t
      exact h P level us c hpart
  | group level hpart => exact (h _ level).expression _ _ hpart
  | @call P us cs name node level function harguments =>
      obtain ⟨op, rfl⟩ := exists_operator_of_function? function
      rw [leaves_node]
      cases harguments with
      | none => exact List.forall_mem_nil _
      | some hrow => exact (h _ level).expression.row hrow

/-- **Operands** ask nothing but what the resolver makes, with any number of levels. -/
theorem operand (hfield : ∀ path t, resolver.field path = some t → T t)
    (hcomparison : ∀ path c s t, resolver.comparison path c s = some t → T t) (levels : Nat) :
    Asks T (Operand resolver levels) := by
  induction levels with
  | zero =>
      refine operandOf hfield hcomparison fun P hP => ?_
      cases hP
  | succ levels ih =>
      refine operandOf hfield hcomparison fun P hP => ?_
      cases hP
      exact ih

end Condition.Asks

end

/-- **What is read** asks only for paths that can be parsed: the resolver parses every one. -/
theorem FieldCondition.parsed_of_read {text : String} {c : FieldCondition}
    (h : FieldCondition.read text = .ok c) : ∀ t ∈ c.leaves, t.path.Parsed := by
  obtain ⟨-, ⟨tokens, -, -, hderives⟩, -, -⟩ := (read_eq_ok_iff FieldTest.resolver text c).1.mp h
  have hfield : ∀ path t, FieldTest.resolver.field path = some t → t.path.Parsed := by
    intro path t ht
    obtain ⟨p, hp, rfl⟩ := Option.map_eq_some_iff.mp ht
    exact FieldPath.parsed_of_toOption hp
  have hcomparison : ∀ path c s t, FieldTest.resolver.comparison path c s = some t →
      t.path.Parsed := by
    intro path c s t ht
    obtain ⟨p, hp, rfl⟩ := Option.map_eq_some_iff.mp ht
    exact FieldPath.parsed_of_toOption hp
  exact (Asks.operand hfield hcomparison 32).expression _ _ hderives

/-! ## Conditions on fields -/

/-- **The resolver of field tests** makes a test of every path that can be parsed. -/
theorem FieldPath.Parsed.field_eq {p : FieldPath} (h : p.Parsed) :
    FieldTest.resolver.field (".".intercalate p.names) = some (.truthy p) := by
  show ((parse p.text).toOption.map FieldTest.truthy) = _
  rw [h.parse_text]
  rfl

theorem FieldPath.Parsed.comparison_eq {p : FieldPath} (h : p.Parsed) (comparator : Comparator)
    (s : Scalar) :
    FieldTest.resolver.comparison (".".intercalate p.names) comparator s
      = some (.compare p comparator s) := by
  show ((parse p.text).toOption.map (FieldTest.compare · comparator s)) = _
  rw [h.parse_text]
  rfl

/-- A comparison whose literal is written so. -/
def Condition.comparisonText (p : FieldPath) (comparator : Comparator) (literal : String) :
    String :=
  p.text ++ " " ++ comparator.symbol ++ " " ++ literal

theorem Condition.toList_comparisonText (p : FieldPath) (comparator : Comparator)
    (literal : String) :
    (comparisonText p comparator literal).toList
      = p.text.toList ++ ' ' :: (comparator.symbol.toList ++ ' ' :: literal.toList) := by
  rw [comparisonText, String.toList_append, String.toList_append, String.toList_append,
    String.toList_append, List.append_assoc, List.append_assoc, List.append_assoc]
  rfl

/-- A comparison is spelled as a path, a comparator and what its literal is spelled as. -/
theorem Condition.spells_comparison {p : FieldPath} (hp : p.Parsed) (comparator : Comparator)
    {literal : String} {t : Token} (h : Spells Follows literal.toList [t]) :
    ∃ ts, PathOf ts p.names
      ∧ Spells Follows (comparisonText p comparator literal).toList
        (ts ++ [.comparator comparator, t]) := by
  obtain ⟨ts, hspells, hpath⟩ := hp.written.spells
  have hblank : Spells Follows (' ' :: literal.toList) [t] := h.space rfl
  have hcomparison := (spells_comparator comparator).append hblank (by decide)
  refine ⟨ts, hpath, ?_⟩
  rw [toList_comparisonText]
  exact hspells.append (hcomparison.space rfl) rfl

/-- **A test** is written as an atom, if its path can be parsed and its literal is no float that is
    not finite.  A comparison is three spellings with blanks between them: path, comparator and
    literal. -/
theorem FieldTest.written (t : FieldTest) (hpath : t.path.Parsed)
    (h : ∀ p comparator x, t = .compare p comparator (.float x) → Decimal.isFinite x = true) :
    Written Follows (AtomOf FieldTest.resolver) t.text (.leaf t) := by
  cases t with
  | truthy p =>
      have hparsed : p.Parsed := hpath
      obtain ⟨ts, hspells, hts⟩ := hparsed.written.spells
      exact ⟨hparsed.written.begins, ts, hspells.mono follows_not_continuesName,
        .field hts hparsed.field_eq⟩
  | compare p comparator s =>
      have hparsed : p.Parsed := hpath
      obtain ⟨c, cs, hc, hne⟩ := hparsed.written.begins
      obtain ⟨t, hliteral, hspells⟩ := s.written fun x hx => h p comparator x (hx ▸ rfl)
      obtain ⟨ts, hts, hspells⟩ := spells_comparison hparsed comparator hspells
      -- The text begins as the path does.
      have hchars := toList_comparisonText p comparator s.text
      rw [hc] at hchars
      exact ⟨⟨c, _, hchars, hne⟩, _, hspells,
        .comparison hts hliteral (hparsed.comparison_eq comparator s)⟩

/-- **The round trip.**  Within the bounds of texts, with paths that can be parsed and finite
    floats, what is read back from the text of a condition asks the same tests in the same order,
    has the same text and is no deeper and no larger.

    What is read back need not be the condition itself: the text shows no node of one part and no
    difference between an empty node and a constant. -/
theorem FieldCondition.text_read_back (c : FieldCondition) (hdepth : c.depth ≤ 32)
    (hsize : c.size ≤ 4096) (hparsed : ∀ t ∈ c.leaves, t.path.Parsed)
    (hfinite : ∀ p comparator x, FieldTest.compare p comparator (.float x) ∈ c.leaves →
      Decimal.isFinite x = true)
    (hbytes : (FieldCondition.text c).utf8ByteSize ≤ 1024 * 1024) :
    ∃ c', FieldCondition.read (FieldCondition.text c) = .ok c'
      ∧ c'.leaves = c.leaves
      ∧ FieldCondition.text c' = FieldCondition.text c
      ∧ c'.depth ≤ c.depth
      ∧ c'.size ≤ c.size
      ∧ ∀ truth, c'.trace truth = c.trace truth := by
  have hspelled : Spelled FieldTest.resolver FieldTest.text c := by
    refine spelled c fun t ht => t.written (hparsed t ht) fun p comparator x hx => ?_
    exact hfinite p comparator x (hx ▸ ht)
  -- The text derives the flat form, which is within the bounds because the condition is.
  have hread : FieldCondition.read (FieldCondition.text c) = .ok c.flat :=
    read_written (hspelled.expression hdepth) hbytes (Nat.le_trans (depth_flat_le c) hdepth)
      (Nat.le_trans (size_flat_le c) hsize)
  exact ⟨c.flat, hread, leaves_flat c, render_flat FieldTest.text c, depth_flat_le c,
    size_flat_le c, fun truth => trace_flat truth c⟩

/-- A field called as a function is, a string with everything that is escaped, a negative float, and
    nodes that their text does not show. -/
def knotted : FieldCondition :=
  .all [.any [.leaf (.truthy (.field "all")),
      .leaf (.compare ⟨⟨"zone"⟩, [⟨"any"⟩]⟩ .equals (.str "a \"b\\c\"\n"))],
    .not (.all [.any [.leaf (.compare (.field "x") .lessThan (.float (-1.5)))], .all []]),
    .all [.constant true, .any []]]

theorem knotted_read_back :
    ∃ c', FieldCondition.read (FieldCondition.text knotted) = .ok c'
      ∧ c'.leaves = knotted.leaves
      ∧ FieldCondition.text c' = FieldCondition.text knotted
      ∧ c'.depth ≤ knotted.depth
      ∧ c'.size ≤ knotted.size
      ∧ ∀ truth, c'.trace truth = knotted.trace truth := by
  have hleaves : knotted.leaves = [.truthy (.field "all"),
      .compare ⟨⟨"zone"⟩, [⟨"any"⟩]⟩ .equals (.str "a \"b\\c\"\n"),
      .compare (.field "x") .lessThan (.float (-1.5))] := rfl
  have hpaths : ∀ p ∈ knotted.leaves.map FieldTest.path, p.Parsed := by
    rw [hleaves]
    decide
  refine FieldCondition.text_read_back knotted (by decide) (by decide)
    (fun t ht => hpaths _ (List.mem_map_of_mem ht)) ?_ (by decide +kernel)
  intro p comparator x h
  rw [hleaves] at h
  rcases List.mem_cons.mp h with h | h
  · exact nomatch h
  · rcases List.mem_cons.mp h with h | h
    · exact nomatch h
    · obtain ⟨-, -, hx⟩ := FieldTest.compare.inj (List.mem_singleton.mp h)
      rw [Scalar.float.inj hx]
      decide +kernel

end Verdict
