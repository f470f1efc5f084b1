/-
  Complaints — what a reader says of a row of tokens that it does not read.

  1. **Specification** — `Complaint`: every report of a reader is about a token of the row, or about
     the end behind the last one, and says what is wrong there.  `Keeps`: what a reader leaves is a
     suffix of the row, and what it reports is a complaint about the row.  So no reader looks at
     anything but the tokens of the row and its end.

  2. **Readers** — one lemma for each; a reader that goes on with another one hands it a suffix, and
     hands back what the other one reports.

  3. **Texts** — the tokens of a text stand at ascending boundaries inside it, so every place in a
     report is a boundary of the text (`read_stays_inside`).
-/
import Verdict.Proofs.Condition.Bytes
import Verdict.Proofs.Condition.Soundness

namespace Verdict.Condition

variable {α β : Type}

/-! ## The specification -/

/-- What a reader may report of a row of tokens. -/
inductive Complaint (resolver : Resolver α) (stop : Nat) (whole : List Placed) : SyntaxError → Prop
  /-- Something else was expected where a part of the row begins, or at its end. -/
  | refused {expected : Expectation} {tokens : List Placed} (suffix : tokens <:+ whole) :
      Complaint resolver stop whole (refusal stop expected tokens)
  /-- A negation, a parenthesis or a call without a level left. -/
  | tooDeep {t : Placed} (mem : t ∈ whole) :
      Complaint resolver stop whole (.nestingTooDeep t.position)
  /-- A call of something that is no function. -/
  | unknownFunction {name : String} {position : Nat} (mem : ⟨.name name, position⟩ ∈ whole)
      (unknown : function? (α := α) name = none) :
      Complaint resolver stop whole (.unknownFunction name position)
  /-- A number that denotes nothing. -/
  | invalidNumber {raw : String} {position : Nat} (mem : ⟨.number raw, position⟩ ∈ whole)
      (invalid : number? raw = none) :
      Complaint resolver stop whole (.invalidNumber raw position)
  /-- A path that the resolver does not know. -/
  | unknownField {p : Placed} {ps : List Placed} {names : List String} (row : p :: ps <:+: whole)
      (path : PathOf ((p :: ps).map Placed.token) names)
      (unknown : resolver.field (".".intercalate names) = none) :
      Complaint resolver stop whole (.unknownCondition (".".intercalate names) p.position)
  /-- A comparison that the resolver does not know. -/
  | unknownComparison {p : Placed} {ps : List Placed} {names : List String} {c : Comparator}
      {s : Scalar} (row : p :: ps <:+: whole) (path : PathOf ((p :: ps).map Placed.token) names)
      (unknown : resolver.comparison (".".intercalate names) c s = none) :
      Complaint resolver stop whole
        (.unknownCondition (".".intercalate names ++ " " ++ c.symbol ++ " " ++ s.text) p.position)

/-- A reader keeps to a row: it leaves a suffix of it, or complains about it. -/
def Keeps (resolver : Resolver α) (stop : Nat) (whole : List Placed) {start : List Placed} :
    Except SyntaxError (Parsed β start) → Prop
  | .ok parsed => parsed.rest <:+ whole
  | .error e => Complaint resolver stop whole e

/-- Does the reader keep to the row wherever in it it begins? -/
def Careful (resolver : Resolver α) (stop : Nat) (whole : List Placed) (r : Reader β) : Prop :=
  ∀ tokens, tokens <:+ whole → Keeps resolver stop whole (r tokens)

section

variable {resolver : Resolver α} {stop : Nat} {whole start tokens rest : List Placed} {t : Placed}

theorem Keeps.of_ok {result : Except SyntaxError (Parsed β start)} {b : β}
    {hlt : rest.length < start.length} (h : Keeps resolver stop whole result)
    (heq : result = .ok ⟨b, rest, hlt⟩) : rest <:+ whole := by
  rw [heq] at h
  exact h

theorem Keeps.of_error {result : Except SyntaxError (Parsed β start)} {e : SyntaxError}
    (h : Keeps resolver stop whole result) (heq : result = .error e) :
    Complaint resolver stop whole e := by
  rw [heq] at h
  exact h

/-! ## Suffixes -/

theorem mem_of_suffix (h : t :: rest <:+ whole) : t ∈ whole := h.subset List.mem_cons_self

theorem tail_of_suffix (h : t :: rest <:+ whole) : rest <:+ whole :=
  (List.suffix_cons t rest).trans h

theorem suffix_of_past? {sign : Token} {u : Unit} {hlt : rest.length < tokens.length}
    (hpast : past? sign tokens = some ⟨u, rest, hlt⟩) (h : tokens <:+ whole) : rest <:+ whole := by
  obtain ⟨p, rfl, _⟩ := eq_cons_of_past? hpast
  exact tail_of_suffix h

/-! ## Literals and atoms -/

/-- A literal takes one token, or complains about it. -/
theorem literal_keeps (h : tokens <:+ whole) :
    Keeps resolver stop whole (literal stop tokens) := by
  unfold literal
  split
  · exact tail_of_suffix h
  · exact tail_of_suffix h
  · exact tail_of_suffix h
  · split
    · exact tail_of_suffix h
    · rename_i hnumber
      exact .invalidNumber (mem_of_suffix h) hnumber
  · exact .refused h

/-- Each name takes two tokens more, and a point without a name behind it is complained about. -/
theorem furtherNames_keeps {done : List String} {hlt : tokens.length < start.length}
    (h : tokens <:+ whole) : Keeps resolver stop whole (furtherNames stop done tokens hlt) := by
  fun_induction furtherNames stop done tokens hlt with
  | case1 => exact h
  | case2 done tokens hlt others h₁ hpoint hname => exact .refused (suffix_of_past? hpoint h)
  | case3 done tokens hlt others h₁ hpoint n further h₂ hname ih =>
      obtain ⟨position, rfl⟩ := eq_cons_of_pastName? hname
      exact ih (tail_of_suffix (suffix_of_past? hpoint h))

/-- An atom may complain about a path that the resolver does not know: the tokens of this path stand
    side by side in the row, which soundness has shown of them. -/
theorem atom_keeps {name : String} {position : Nat} {hlt : tokens.length < start.length}
    (h : ⟨.name name, position⟩ :: tokens <:+ whole) :
    Keeps resolver stop whole (atom resolver stop name position tokens hlt) := by
  have hnames : Keeps resolver stop whole (furtherNames stop [name] tokens hlt) :=
    furtherNames_keeps (tail_of_suffix h)
  unfold atom
  split
  · rename_i e he
    exact hnames.of_error he
  rename_i names rest hrest heq
  have hhead : PathOf [.name name] [name] := .one rfl
  obtain ⟨ps, rfl, hpath⟩ := furtherNames_derived heq hhead
  -- The first name and what was read behind it stand side by side in the row.
  have hrow : ⟨.name name, position⟩ :: ps <:+: whole := by
    obtain ⟨before, hwhole⟩ := h
    refine ⟨before, rest, ?_⟩
    rw [← hwhole, List.append_assoc, List.cons_append]
  dsimp only
  split
  · -- No comparator follows: the path is the atom.
    split
    · exact hnames.of_ok heq
    · rename_i hunknown
      exact .unknownField hrow hpath hunknown
  · rename_i c others hothers hcomparator
    obtain ⟨place, rfl⟩ := eq_cons_of_pastComparator? hcomparator
    have hliteral : Keeps resolver stop whole (literal stop others) :=
      literal_keeps (tail_of_suffix (hnames.of_ok heq))
    split
    · rename_i e he
      exact hliteral.of_error he
    rename_i s behind hbehind hs
    split
    · exact hliteral.of_ok hs
    · rename_i hunknown
      exact .unknownComparison hrow hpath hunknown

/-! ## Chains and arguments -/

section

variable {r : Reader (Condition α)}

/-- The loop hands suffixes on, and hands back the first complaint. -/
theorem furtherOperands_keeps (hr : Careful resolver stop whole r) {sign : Token}
    {done : List (Condition α)} {hlt : tokens.length < start.length} (h : tokens <:+ whole) :
    Keeps resolver stop whole (furtherOperands sign r done tokens hlt) := by
  fun_induction furtherOperands sign r done tokens hlt with
  | case1 => exact h
  | case2 done tokens hlt others h₁ hsign e he =>
      exact (hr others (suffix_of_past? hsign h)).of_error he
  | case3 done tokens hlt others h₁ hsign c further h₂ hc ih =>
      exact ih ((hr others (suffix_of_past? hsign h)).of_ok hc)

theorem chain_careful (hr : Careful resolver stop whole r) (sign : Token)
    (node : List (Condition α) → Condition α) :
    Careful resolver stop whole (chain sign node r) := by
  intro tokens h
  have hfirst := hr tokens h
  unfold chain
  split
  · rename_i e he
    exact hfirst.of_error he
  rename_i c rest hlt hc
  have hothers : Keeps resolver stop whole (furtherOperands sign r [c] rest hlt) :=
    furtherOperands_keeps hr (hfirst.of_ok hc)
  split
  · rename_i e he
    exact hothers.of_error he
  · rename_i cs behind hbehind hcs
    exact hothers.of_ok hcs

theorem expression_careful (hr : Careful resolver stop whole r) :
    Careful resolver stop whole (expression r) :=
  chain_careful (chain_careful hr .andSign .all) .orSign .any

/-- The same for arguments, where a row that is not closed is refused. -/
theorem furtherArguments_keeps (hr : Careful resolver stop whole r) {done : List (Condition α)}
    {hlt : tokens.length < start.length} (h : tokens <:+ whole) :
    Keeps resolver stop whole (furtherArguments stop r done tokens hlt) := by
  fun_induction furtherArguments stop r done tokens hlt with
  | case1 done tokens hlt e he => exact (hr tokens h).of_error he
  | case2 done tokens hlt c others h₁ hc further h₂ hcomma ih =>
      exact ih (suffix_of_past? hcomma ((hr tokens h).of_ok hc))
  | case3 done tokens hlt c others h₁ hc _ further h₂ hclosing =>
      exact suffix_of_past? hclosing ((hr tokens h).of_ok hc)
  | case4 done tokens hlt c others h₁ hc => exact .refused ((hr tokens h).of_ok hc)

theorem arguments_keeps (hr : Careful resolver stop whole r) {hlt : tokens.length < start.length}
    (h : tokens <:+ whole) : Keeps resolver stop whole (arguments stop r tokens hlt) := by
  unfold arguments
  split
  · rename_i others h₁ hclosing
    exact suffix_of_past? hclosing h
  · exact furtherArguments_keeps hr h

end

/-! ## Operands -/

section

variable {inner : Option (Reader (Condition α))} {position : Nat}

/-- A name that a parenthesis follows is a call: one level is taken before the function is looked
    up, and both questions are about the name. -/
theorem named_keeps (hinner : ∀ r, inner = some r → Careful resolver stop whole r) {name : String}
    {hlt : tokens.length < start.length} (h : ⟨.name name, position⟩ :: tokens <:+ whole) :
    Keeps resolver stop whole (named resolver stop inner name position tokens hlt) := by
  unfold named
  split
  · exact atom_keeps h
  rename_i others h₁ hopening
  split
  · exact .tooDeep (mem_of_suffix h)
  rename_i r
  split
  · rename_i hunknown
    exact .unknownFunction (mem_of_suffix h) hunknown
  -- A function is called, one level deeper.
  have hothers : others <:+ whole := suffix_of_past? hopening (tail_of_suffix h)
  have hlt' : others.length < start.length := Nat.lt_trans h₁ hlt
  have hargs : Keeps resolver stop whole (@arguments α stop (expression r) start others hlt') :=
    arguments_keeps (expression_careful (hinner r rfl)) hothers
  split
  · rename_i e he
    exact hargs.of_error he
  · rename_i cs rest hrest hcs
    exact hargs.of_ok hcs

/-- A group is read one level deeper, and what stands behind it has to close it. -/
theorem grouped_keeps (hinner : ∀ r, inner = some r → Careful resolver stop whole r)
    {hlt : tokens.length < start.length} (h : ⟨.opening, position⟩ :: tokens <:+ whole) :
    Keeps resolver stop whole (grouped stop inner position tokens hlt) := by
  unfold grouped
  split
  · exact .tooDeep (mem_of_suffix h)
  rename_i r
  have hinside := expression_careful (hinner r rfl) tokens (tail_of_suffix h)
  split
  · rename_i e he
    exact hinside.of_error he
  rename_i c rest h₁ hc
  split
  · rename_i behind h₂ hclosing
    exact suffix_of_past? hclosing (hinside.of_ok hc)
  · exact .refused (hinside.of_ok hc)

theorem negated_keeps (hinner : ∀ r, inner = some r → Careful resolver stop whole r)
    {hlt : tokens.length < start.length} (h : ⟨.notSign, position⟩ :: tokens <:+ whole) :
    Keeps resolver stop whole (negated inner position tokens hlt) := by
  unfold negated
  split
  · exact .tooDeep (mem_of_suffix h)
  rename_i r
  have hinside := hinner r rfl tokens (tail_of_suffix h)
  split
  · rename_i e he
    exact hinside.of_error he
  · rename_i c rest h₁ hc
    exact hinside.of_ok hc

/-- An operand is careful if those one level deeper are. -/
theorem operand_careful (hinner : ∀ r, inner = some r → Careful resolver stop whole r) :
    Careful resolver stop whole (operand resolver stop inner) := by
  intro tokens h
  unfold operand
  split
  · exact negated_keeps hinner h
  · exact grouped_keeps hinner h
  · exact named_keeps hinner h
  · exact tail_of_suffix h
  · exact tail_of_suffix h
  · -- A number is reported as any other token, but something else was expected.
    have hrefused : Complaint resolver stop whole (refusal stop .operand _) := .refused h
    exact hrefused
  · exact .refused h

/-- **Readers keep to the row**, with any number of levels left.  By induction on the levels: an
    operand hands the row to readers that have one level less. -/
theorem operandAt_careful (levels : Nat) :
    Careful resolver stop whole (operandAt resolver stop levels) := by
  induction levels with
  | zero => exact operand_careful nofun
  | succ levels ih =>
      refine operand_careful fun r hr => ?_
      cases hr
      exact ih

end

/-! ## Places -/

/-- The byte of the text that a report names, if it names one. -/
def SyntaxError.position? : SyntaxError → Option Nat
  | nestingTooDeep position => some position
  | unexpected _ _ position => some position
  | unterminatedString position => some position
  | unknownCondition _ position => some position
  | unknownFunction _ position => some position
  | invalidNumber _ position => some position
  | trailingInput position => some position
  | emptyInput => none
  | inputTooLarge _ => none
  | outOfBounds _ => none

/-- A complaint names the place of a token, or the end: only where something else was expected can
    there be no token left. -/
theorem Complaint.position {e : SyntaxError} {position : Nat}
    (h : Complaint resolver stop whole e) (hposition : e.position? = some position) :
    position = stop ∨ ∃ t ∈ whole, t.position = position := by
  cases h with
  | @refused expected tokens suffix =>
      cases hposition
      cases tokens with
      | nil => exact .inl rfl
      | cons t rest => exact .inr ⟨t, mem_of_suffix suffix, rfl⟩
  | @tooDeep t mem =>
      cases hposition
      exact .inr ⟨t, mem, rfl⟩
  | unknownFunction mem _ =>
      cases hposition
      exact .inr ⟨_, mem, rfl⟩
  | invalidNumber mem _ =>
      cases hposition
      exact .inr ⟨_, mem, rfl⟩
  | @unknownField p ps names row _ _ =>
      cases hposition
      exact .inr ⟨p, row.subset List.mem_cons_self, rfl⟩
  | @unknownComparison p ps names c s row _ _ =>
      cases hposition
      exact .inr ⟨p, row.subset List.mem_cons_self, rfl⟩

end

/-! ## Texts -/

/-- Why a text is not read, stage after stage. -/
inductive Refused (resolver : Resolver α) (text : String) : SyntaxError → Prop
  | tooLarge (large : maxTextBytes < text.utf8ByteSize) :
      Refused resolver text (.inputTooLarge text.utf8ByteSize)
  | misread {e : SyntaxError} (scanned : scan text = .error e) : Refused resolver text e
  | empty (small : text.utf8ByteSize ≤ maxTextBytes) (scanned : scan text = .ok []) :
      Refused resolver text .emptyInput
  | complaint {tokens : List Placed} {e : SyntaxError} (scanned : scan text = .ok tokens)
      (about : Complaint resolver text.utf8ByteSize tokens e) : Refused resolver text e
  | trailing {tokens : List Placed} {t : Placed} (scanned : scan text = .ok tokens)
      (mem : t ∈ tokens) : Refused resolver text (.trailingInput t.position)
  | outOfBounds {c : Condition α} {excess : BoundsError}
      (checked : Bounds.default.check c = .error excess) :
      Refused resolver text (.outOfBounds excess)

/-- **What a text is refused for.**  One case for each stage of reading, in the order in which a
    text passes them. -/
theorem refused_of_read {resolver : Resolver α} {text : String} {e : SyntaxError}
    (h : read resolver text = .error e) : Refused resolver text e := by
  unfold read at h
  dsimp only [bind, Except.bind] at h
  split at h
  · rename_i hlarge
    cases h
    exact .tooLarge hlarge
  rename_i hsmall
  split at h
  · rename_i e' hscan
    cases h
    exact .misread hscan
  rename_i tokens hscan
  split at h
  · rename_i hnone
    cases h
    rw [List.isEmpty_iff.mp hnone] at hscan
    exact .empty (Nat.le_of_not_lt hsmall) hscan
  have hkeeps : Keeps resolver text.utf8ByteSize tokens
      (expression (operandAt resolver text.utf8ByteSize maxNesting) tokens) :=
    expression_careful (operandAt_careful maxNesting) tokens List.suffix_rfl
  split at h
  · rename_i e' he
    cases h
    exact .complaint hscan (hkeeps.of_error he)
  -- A condition was read; what is left of the row is a suffix of it.
  rename_i parsed hparsed
  obtain ⟨c, rest, hlt⟩ := parsed
  dsimp only at h
  split at h
  · cases h
    exact .trailing hscan (mem_of_suffix (hkeeps.of_ok hparsed))
  split at h
  · rename_i hcheck
    cases h
    exact .outOfBounds hcheck
  · cases h

/-- A character boundary of a text, no further than its end. -/
def Boundary (text : String) (position : Nat) : Prop :=
  String.Pos.Raw.IsValid text ⟨position⟩ ∧ position ≤ text.utf8ByteSize

/-- What stands in a text stands at a boundary of it. -/
theorem StandsAt.boundary {text piece : String} {position : Nat}
    (h : StandsAt text position piece) : Boundary text position := by
  refine ⟨h.isValid, ?_⟩
  obtain ⟨before, after, rfl, rfl⟩ := h
  rw [String.utf8ByteSize_append, String.utf8ByteSize_append, Nat.add_assoc]
  exact Nat.le_add_right _ _

theorem boundary_end (text : String) : Boundary text text.utf8ByteSize := by
  have hstands : StandsAt text text.utf8ByteSize "" :=
    ⟨text, "", by rw [String.append_empty, String.append_empty], rfl⟩
  exact hstands.boundary

theorem Misread.boundary {text : String} {e : SyntaxError} (h : Misread text e) {position : Nat}
    (hposition : e.position? = some position) : Boundary text position := by
  cases h with
  | sign stands =>
      cases hposition
      exact stands.boundary
  | escape _ stands =>
      cases hposition
      exact stands.boundary
  | unclosed stands =>
      cases hposition
      exact stands.boundary

/-- **Where tokens stand**: at boundaries inside the text, each further on than the one before. -/
theorem scan_places {text : String} {tokens : List Placed} (h : scan text = .ok tokens) :
    (∀ t ∈ tokens, Inside text t.position)
      ∧ tokens.Pairwise fun t t' => t.position < t'.position :=
  scanFrom_places scanned_nil (remains_whole text) h

/-- **Every place that is reported** is a boundary of the text: what the scan reports stands in the
    text, and what a reader reports is about a token of it, or the end. -/
theorem Refused.boundary {resolver : Resolver α} {text : String} {e : SyntaxError}
    (h : Refused resolver text e) {position : Nat} (hposition : e.position? = some position) :
    Boundary text position := by
  have hinside : ∀ {t : Placed}, Inside text t.position → Boundary text t.position :=
    fun ht => ⟨ht.isValid, Nat.le_of_lt ht.lt⟩
  cases h with
  | tooLarge _ => cases hposition
  | misread scanned => exact (scan_error scanned).boundary hposition
  | empty _ _ => cases hposition
  | complaint scanned about =>
      rcases about.position hposition with rfl | ⟨t, ht, rfl⟩
      · exact boundary_end text
      · exact hinside ((scan_places scanned).1 t ht)
  | trailing scanned mem =>
      cases hposition
      exact hinside ((scan_places scanned).1 _ mem)
  | outOfBounds _ => cases hposition

/-- A text without tokens is a text of blanks.  Said for any tokens that are done already, which the
    induction along the scan needs: once there is one, the result is not empty. -/
theorem scanFrom_eq_nil {position : Nat} {done : List Placed} {cs : List Char}
    (h : scanFrom position done cs = .ok []) : done = [] ∧ ∀ c ∈ cs, isSpace c = true := by
  fun_induction scanFrom position done cs with
  | case1 position done =>
      have hdone : done.reverse = [] := Except.ok.inj h
      exact ⟨List.reverse_eq_nil_iff.mp hdone, List.forall_mem_nil _⟩
  | case2 position done c cs hc ih =>
      obtain ⟨hdone, hcs⟩ := ih h
      exact ⟨hdone, List.forall_mem_cons.mpr ⟨hc, hcs⟩⟩
  | case3 => cases h
  | case4 position done c cs _ l hl ih => exact absurd (ih h).1 (List.cons_ne_nil _ _)

theorem scanFrom_blanks {position : Nat} {done : List Placed} {cs : List Char}
    (h : ∀ c ∈ cs, isSpace c = true) : scanFrom position done cs = .ok done.reverse := by
  induction cs generalizing position with
  | nil => rw [scanFrom]
  | cons c cs ih =>
      obtain ⟨hc, hcs⟩ := List.forall_mem_cons.mp h
      rw [scanFrom, if_pos hc]
      exact ih hcs

/-- **Only blanks are empty input.**  No other stage gives this report: a scan names a place, a
    reader names a token or the end, and the bounds name a limit. -/
theorem read_eq_emptyInput_iff {resolver : Resolver α} {text : String} :
    read resolver text = .error .emptyInput
      ↔ text.utf8ByteSize ≤ maxTextBytes ∧ ∀ c ∈ text.toList, isSpace c = true := by
  constructor
  · intro h
    cases refused_of_read h with
    | misread scanned => cases scan_error scanned
    | empty small scanned => exact ⟨small, (scanFrom_eq_nil scanned).2⟩
    | complaint _ about => cases about
  · rintro ⟨hsmall, hblanks⟩
    have hscan : scan text = .ok [] := scanFrom_blanks hblanks
    unfold read
    dsimp only [bind, Except.bind]
    rw [if_neg (Nat.not_lt.mpr hsmall), hscan]
    rfl

theorem isSpace_iff {c : Char} :
    isSpace c = true ↔ c = ' ' ∨ c = '\t' ∨ c = '\r' ∨ c = '\n' := by
  simp only [isSpace, Bool.or_eq_true, beq_iff_eq]
  constructor
  · rintro (((h | h) | h) | h) <;> simp [h]
  · rintro (h | h | h | h) <;> simp [h]

/-- **Reading stays inside the text.**  The scan over the bytes cuts at boundaries only and ends
    behind the last byte; the tokens stand at ascending boundaries inside the text; the readers keep
    to the tokens and their end; every place that is reported is a boundary; and only blanks are
    reported as empty input. -/
theorem read_stays_inside (resolver : Resolver α) (text : String) :
    Bytewise.scan text = some ((scan text).map (·, text.utf8ByteSize))
      ∧ (∀ tokens, scan text = .ok tokens →
          (∀ t ∈ tokens, String.Pos.Raw.IsValid text ⟨t.position⟩
            ∧ t.position < text.utf8ByteSize)
          ∧ tokens.Pairwise (fun t t' => t.position < t'.position)
          ∧ ∀ levels, Careful resolver text.utf8ByteSize tokens
              (expression (operandAt resolver text.utf8ByteSize levels)))
      ∧ (∀ e position, read resolver text = .error e → e.position? = some position →
          String.Pos.Raw.IsValid text ⟨position⟩ ∧ position ≤ text.utf8ByteSize)
      ∧ (read resolver text = .error .emptyInput ↔ text.utf8ByteSize ≤ 1024 * 1024
          ∧ ∀ c ∈ text.toList, c = ' ' ∨ c = '\t' ∨ c = '\r' ∨ c = '\n') := by
  refine ⟨Bytewise.scan_eq text, fun tokens hscan => ?_, fun e position hread hposition => ?_, ?_⟩
  · obtain ⟨hinside, hascending⟩ := scan_places hscan
    refine ⟨fun t ht => ?_, hascending, fun levels => ?_⟩
    · have ht := hinside t ht
      exact ⟨ht.isValid, ht.lt⟩
    · exact expression_careful (operandAt_careful levels)
  · exact (refused_of_read hread).boundary hposition
  · simp only [← isSpace_iff]
    exact read_eq_emptyInput_iff

/-- Every atom is known by its path. -/
def byPath : Resolver String where
  field path := some path
  comparison path _ _ := some path

/-- A character of two bytes that begins nothing, and a text of blanks. -/
theorem read_stays_inside_umlaut :
    read byPath "x == ä" = .error (.unexpected .token "ä" 5)
      ∧ String.Pos.Raw.IsValid "x == ä" ⟨5⟩ ∧ 5 ≤ "x == ä".utf8ByteSize
      ∧ read byPath " \t" = .error .emptyInput := by
  have hscan : scan "x == ä" = .error (.unexpected .token "ä" 5) := by
    decide +kernel
  have hread : read byPath "x == ä" = .error (.unexpected .token "ä" 5) := by
    unfold read
    dsimp only [bind, Except.bind]
    rw [if_neg (by decide), hscan]
  obtain ⟨_, _, hplaces, _⟩ := read_stays_inside byPath "x == ä"
  obtain ⟨_, _, _, hempty⟩ := read_stays_inside byPath " \t"
  obtain ⟨hvalid, hle⟩ := hplaces _ _ hread rfl
  have hblanks : ∀ c ∈ [' ', '\t'], c = ' ' ∨ c = '\t' ∨ c = '\r' ∨ c = '\n' :=
    List.forall_mem_cons.mpr ⟨.inl rfl, List.forall_mem_singleton.mpr (.inr (.inl rfl))⟩
  exact ⟨hread, hvalid, hle, hempty.mpr ⟨by decide, hblanks⟩⟩

end Verdict.Condition
