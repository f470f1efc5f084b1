/-
  Writing back — what was read from a text, serialized and read again, or written and read again.

  1. **Overflow** — a decimal OVERFLOWS if no finite float is near to it.  A condition is finite
     exactly if none of the numerals overflow that it was read from (`finite_iff_of_denotes`).

  2. **Writing back** — the serialized form of a condition that was read is read back exactly if no
     numeral overflows, and then its text is accepted again (`writesBack_of_read`).

  3. **Refusals** — digits that denote no integer of 64 bits are refused, but a decimal never is
     (`numbers_read`): one that overflows becomes an infinite float, whose form is not read back and
     whose text is refused (`huge_not_written_back`).
-/
import Verdict.Proofs.Condition.Numerals
import Verdict.Proofs.Condition.RoundTrip
import Verdict.Proofs.Decimal.Overflow
import Verdict.Proofs.Form.Condition

namespace Verdict.Condition

open Decimal

/-! ## Overflow -/

/-- A decimal that no finite float is near to. -/
def Overflows (raw : String) : Prop :=
  ∃ negative whole fraction, raw = signed negative (whole ++ '.' :: fraction)
    ∧ (∀ c ∈ whole, isDigit c = true) ∧ IsDigits fraction
    ∧ overflow * 10 ^ fraction.length ≤ digitsValue (whole ++ fraction)

/-- A decimal is cut at its point in one way: the digits in front hold no point. -/
theorem signed_decimal_inj {negative negative' : Bool} {whole whole' fraction fraction' : List Char}
    (h : ∀ c ∈ whole, isDigit c = true) (h' : ∀ c ∈ whole', isDigit c = true)
    (heq : signed negative (whole ++ '.' :: fraction)
      = signed negative' (whole' ++ '.' :: fraction')) :
    whole = whole' ∧ fraction = fraction' := by
  have hsigned : withoutSign (signed negative (whole ++ '.' :: fraction)).toList
      = withoutSign (signed negative' (whole' ++ '.' :: fraction')).toList := by rw [heq]
  rw [withoutSign_row negative (head?_ne_minus_decimal h fraction),
    withoutSign_row negative' (head?_ne_minus_decimal h' fraction')] at hsigned
  have hrow := (Prod.mk.inj hsigned).2
  have hwhole := congrArg (List.takeWhile (· ≠ '.')) hrow
  have hfraction := congrArg (List.dropWhile (· ≠ '.')) hrow
  rw [takeWhile_digits h, takeWhile_digits h'] at hwhole
  rw [dropWhile_digits h, dropWhile_digits h'] at hfraction
  exact ⟨hwhole, (List.cons.inj hfraction).2⟩

/-- **What a numeral denotes is finite unless the numeral overflows.**  Integers always are; a
    decimal is exactly if it is below the bound where the finite floats end. -/
theorem Denotes.finite_iff {raw : String} {s : Scalar} (h : Denotes raw s) :
    s.Finite ↔ ¬ Overflows raw := by
  cases h with
  | @integer negative digits n row value =>
      refine iff_of_true trivial ?_
      rintro ⟨negative', whole, fraction, heq, hwhole, -, -⟩
      -- A decimal is never read as an integer.
      have hread := congrArg number? heq
      rw [number?_whole negative row.2, number?_decimal negative' hwhole] at hread
      obtain ⟨m, -, hm⟩ := Option.map_eq_some_iff.mp hread
      cases hm
  | @decimal negative whole fraction row fractionRow =>
      show isFinite _ = true ↔ _
      rw [isFinite_ofDigits_iff]
      constructor
      · rintro hlt ⟨negative', whole', fraction', heq, hwhole', -, hle⟩
        obtain ⟨rfl, rfl⟩ := signed_decimal_inj row hwhole' heq
        omega
      · intro hnot
        refine Nat.lt_of_not_le fun hle => ?_
        exact hnot ⟨negative, whole, fraction, rfl, row, fractionRow, hle⟩

/-- The same of a row, numeral by numeral. -/
theorem finite_iff_of_denotes {raws : List String} {xs : List Scalar}
    (h : List.Forall₂ Denotes raws xs) :
    (∀ s ∈ xs, s.Finite) ↔ ∀ raw ∈ raws, ¬ Overflows raw := by
  induction h with
  | nil => exact ⟨nofun, nofun⟩
  | cons h _ ih => rw [List.forall_mem_cons, List.forall_mem_cons, ih, h.finite_iff]

/-- A float that a numeral denotes is a number, possibly an infinite one. -/
theorem magnitude_le_of_denotes {raws : List String} {xs : List Scalar}
    (h : List.Forall₂ Denotes raws xs) {x : Float} (hx : .float x ∈ xs) :
    magnitude x ≤ infinityBits := by
  induction h with
  | nil => cases hx
  | cons h _ ih =>
      rcases List.mem_cons.mp hx with rfl | hx
      · cases h with
        | decimal => exact magnitude_ofDigits_le _ _ _
      · exact ih hx

/-- A test is finite if its number is. -/
theorem finite_iff_number? (t : FieldTest) : t.Finite ↔ ∀ s, t.number? = some s → s.Finite := by
  cases t with
  | truthy p => exact iff_of_true trivial nofun
  | compare p comparator literal =>
      constructor
      · intro h s hs
        have hs : (if literal.isNumeric then some literal else none) = some s := hs
        split at hs
        · cases hs
          exact h
        · cases hs
      · intro h
        cases literal with
        | bool b => trivial
        | str s => trivial
        | int n => trivial
        | float x => exact h (.float x) rfl

/-- Only the numbers of a condition can keep it from being finite: of the literals, they alone can
    be floats. -/
theorem finite_iff_numbers (c : FieldCondition) :
    FieldCondition.Finite c ↔ ∀ s ∈ numbers c, s.Finite := by
  constructor
  · intro h s hs
    obtain ⟨t, ht, hnumber⟩ := List.mem_filterMap.mp hs
    exact (finite_iff_number? t).mp (h t ht) s hnumber
  · intro h t ht
    refine (finite_iff_number? t).mpr fun s hnumber => ?_
    exact h s (List.mem_filterMap.mpr ⟨t, ht, hnumber⟩)

/-! ## Texts -/

/-- How a condition stands to the numerals of the text that it was read from. -/
structure WritesBack (raws : List String) (c : FieldCondition) : Prop where
  /-- The numerals denote the numbers of the condition, one by one. -/
  denoted : List.Forall₂ Denotes raws (numbers c)
  /-- Every float literal is a number, possibly an infinite one. -/
  number : ∀ p comparator x, FieldTest.compare p comparator (.float x) ∈ c.leaves →
    magnitude x ≤ infinityBits
  /-- The float literals are all finite exactly if no numeral overflows. -/
  finite : FieldCondition.Finite c ↔ ∀ raw ∈ raws, ¬ Overflows raw
  /-- Exactly then the serialized form is read back. -/
  form : FieldCondition.ofForm? (FieldCondition.toForm c) = some c ↔
    ∀ raw ∈ raws, ¬ Overflows raw
  /-- Then the text is accepted again, if it is no longer than texts may be. -/
  text : (∀ raw ∈ raws, ¬ Overflows raw) →
    (FieldCondition.text c).utf8ByteSize ≤ 1024 * 1024 →
      ∃ c', FieldCondition.read (FieldCondition.text c) = .ok c' ∧ c'.leaves = c.leaves
        ∧ FieldCondition.text c' = FieldCondition.text c

/-- **What was read** can be written back, unless a numeral of its text overflows.  Reading has gone
    through a derivation, along which the numbers of the tokens were counted; and whether the
    condition has a form and a text of its own is a question about these numbers alone. -/
theorem writesBack_of_read {text : String} {c : FieldCondition}
    (h : FieldCondition.read text = .ok c) :
    ∃ tokens, scan text = .ok tokens ∧ WritesBack (numerals (tokens.map Placed.token)) c := by
  obtain ⟨hbytes, ⟨tokens, hscan, hne, hderives⟩, hdepth, hsize⟩ :=
    (read_eq_ok_iff FieldTest.resolver text c).1.mp h
  have htally := (tallies_operand 32).expression _ _ hderives
  have hnumerals : ∀ raw ∈ numerals (tokens.map Placed.token), Numeral raw := by
    intro raw hraw
    obtain ⟨t, ht, htext⟩ := List.mem_filterMap.mp hraw
    obtain ⟨p, hp, rfl⟩ := List.mem_map.mp ht
    refine numeral_of_scanFrom hscan nofun p hp raw ?_
    unfold Token.numeral? at htext
    split at htext
    · rename_i heq
      cases htext
      exact heq
    · cases htext
  have hdenoted : List.Forall₂ Denotes (numerals (tokens.map Placed.token)) (numbers c) :=
    ((List.forall₂_and_left _ _).mpr ⟨hnumerals, htally⟩).imp
      fun _ _ h => denotes_of_number? h.1 h.2
  have hfinite := (finite_iff_numbers c).trans (finite_iff_of_denotes hdenoted)
  -- All paths were parsed, so nothing but an infinite float can be lost in a form or in a text.
  have hparsed := FieldCondition.parsed_of_read h
  have hform := (FieldCondition.ofForm?_toForm_iff c).trans
    (FieldCondition.storable_iff_finite hparsed)
  refine ⟨tokens, hscan, hdenoted, fun p comparator x hx => ?_, hfinite,
    hform.trans hfinite, fun hclear hsmall => ?_⟩
  · exact magnitude_le_of_denotes hdenoted (List.mem_filterMap.mpr ⟨_, hx, rfl⟩)
  · have hclear := hfinite.mpr hclear
    obtain ⟨c', hread, hleaves, htext, -⟩ := FieldCondition.text_read_back c hdepth hsize
      hparsed (fun p comparator x hx => hclear _ hx) hsmall
    exact ⟨c', hread, hleaves, htext⟩

/-! ## One comparison -/

theorem text_comparison (p : FieldPath) (comparator : Comparator) (s : Scalar) :
    FieldCondition.text (.leaf (.compare p comparator s)) = comparisonText p comparator s.text :=
  rfl

variable {p : FieldPath} {comparator : Comparator} {text : String} {t : Token}

/-- A literal that is read makes the comparison a condition. -/
theorem read_comparison {s : Scalar} (hp : p.Parsed) (h : Spells Follows text.toList [t])
    (hs : LiteralOf t s)
    (hbytes : (comparisonText p comparator text).utf8ByteSize ≤ maxTextBytes) :
    FieldCondition.read (comparisonText p comparator text)
      = .ok (.leaf (.compare p comparator s)) := by
  obtain ⟨ts, hpath, hspells⟩ := spells_comparison hp comparator h
  obtain ⟨placed, htokens, hscan⟩ := scan_of_spells hspells
  have hoperand : Operand FieldTest.resolver 32 (placed.map Placed.token)
      (.leaf (.compare p comparator s)) := by
    rw [htokens]
    exact .atom (.comparison hpath hs (hp.comparison_eq comparator s))
  refine (read_eq_ok_iff FieldTest.resolver _ _).1.mpr ⟨hbytes, ⟨placed, hscan, ?_, ?_⟩, ?_, ?_⟩
  · rintro rfl
    exact List.append_ne_nil_of_right_ne_nil ts (List.cons_ne_nil _ _) htokens.symm
  · exact ⟨[_], .one ⟨[_], .one hoperand, rfl⟩, rfl⟩
  · exact Nat.zero_le 32
  · show 1 ≤ 4096
    decide

/-- A literal that is refused is what the operand is refused for: the path in front of it is read,
    and the comparator, and neither can be at fault. -/
theorem operandAt_refused {e : Nat → SyntaxError} {stop place position : Nat} {ns : List Placed}
    (hpath : PathOf (ns.map Placed.token) p.names)
    (hrefused : literal stop [⟨t, position⟩] = .error (e position)) :
    operandAt FieldTest.resolver stop 32 (ns ++ [⟨.comparator comparator, place⟩, ⟨t, position⟩])
      = .error (e position) := by
  have hdot : past? .dot [⟨.comparator comparator, place⟩, ⟨t, position⟩] = none := by
    refine past?_cons_of_ne ?_ _
    nofun
  have hopening : past? .opening [⟨.comparator comparator, place⟩, ⟨t, position⟩] = none := by
    refine past?_cons_of_ne ?_ _
    nofun
  obtain ⟨name, start, qs, rfl, hqs, hread⟩ := furtherNames_reads stop hpath rfl hdot
  obtain ⟨hlt, hnames⟩ := hread (⟨.name name, start⟩ :: (qs ++ [_, _])) _ []
    (Nat.lt_succ_self _) rfl
  rw [List.cons_append, operandAt, operand, named, past?_opening_of_path hqs hopening]
  dsimp only
  rw [atom, hnames]
  dsimp only [pastComparator?]
  rw [hrefused]

/-- A literal that is refused is what the comparison is refused for. -/
theorem read_comparison_error {e : Nat → SyntaxError} (hp : p.Parsed)
    (h : Spells Follows text.toList [t])
    (hrefused : ∀ stop position, literal stop [⟨t, position⟩] = .error (e position))
    (hbytes : (comparisonText p comparator text).utf8ByteSize ≤ maxTextBytes) :
    ∃ position, FieldCondition.read (comparisonText p comparator text) = .error (e position) := by
  obtain ⟨ts, hpath, hspells⟩ := spells_comparison hp comparator h
  obtain ⟨placed, htokens, hscan⟩ := scan_of_spells hspells
  obtain ⟨ns, q, rs, rfl, rfl, hq, hrs⟩ := exists_of_map_append htokens
  obtain ⟨⟨token, position⟩, others, rfl, htoken, hothers⟩ := List.map_eq_cons_iff.mp hrs
  obtain rfl := List.map_eq_nil_iff.mp hothers
  obtain rfl : token = t := htoken
  obtain ⟨comparatorToken, place⟩ := q
  obtain rfl : comparatorToken = .comparator comparator := hq
  have hexpression : ∀ stop, expression (operandAt FieldTest.resolver stop maxNesting)
      (ns ++ [⟨.comparator comparator, place⟩, ⟨token, position⟩]) = .error (e position) := by
    intro stop
    show chain .orSign .any (chain .andSign .all (operandAt _ _ 32)) _ = _
    rw [chain, chain, operandAt_refused hpath (hrefused stop position)]
  refine ⟨position, ?_⟩
  unfold FieldCondition.read Condition.read
  dsimp only [bind, Except.bind]
  rw [if_neg (Nat.not_lt.mpr hbytes), hscan]
  dsimp only
  rw [List.isEmpty_eq_false_iff.mpr (List.append_ne_nil_of_right_ne_nil ns (List.cons_ne_nil _ _)),
    if_neg Bool.false_ne_true, hexpression]

/-! ## The theorem -/

/-- Digits that denote no integer of 64 bits are refused, wherever a literal is wanted. -/
theorem literal_refused {negative : Bool} {digits : List Char} (h : IsDigits digits)
    (hlarge : ¬ FitsInt64 (signedValue negative digits)) (stop position : Nat) :
    literal stop [⟨.number (signed negative digits), position⟩]
      = .error (.invalidNumber (signed negative digits) position) := by
  have hnone : number? (signed negative digits) = none := by
    rw [number?_whole negative h.2]
    rcases integer?_eq negative h.1 with ⟨n, hn, hvalue⟩ | ⟨hnone, -⟩
    · refine absurd ?_ hlarge
      rw [← hvalue]
      exact ⟨n.minValue_le_toInt, n.toInt_le⟩
    · rw [hnone]
      rfl
  rw [literal, hnone]

/-- How the numbers of a text are read. -/
structure NumbersRead (text : String) : Prop where
  /-- An accepted text can be written back, unless one of its numerals overflows. -/
  accepted : ∀ c, FieldCondition.read text = .ok c →
    ∃ tokens, scan text = .ok tokens ∧ WritesBack (numerals (tokens.map Placed.token)) c
  /-- Digits that denote no integer of 64 bits are refused. -/
  refused : ∀ (p : FieldPath) (comparator : Comparator) (negative : Bool) (digits : List Char),
    p.Parsed → text = comparisonText p comparator (signed negative digits) → IsDigits digits →
    ¬ FitsInt64 (signedValue negative digits) → text.utf8ByteSize ≤ 1024 * 1024 →
      ∃ position, FieldCondition.read text
        = .error (.invalidNumber (signed negative digits) position)
  /-- A decimal is accepted whatever it denotes, an infinite float if it overflows. -/
  decimal : ∀ (p : FieldPath) (comparator : Comparator) (negative : Bool)
      (whole fraction : List Char),
    p.Parsed → text = comparisonText p comparator (signed negative (whole ++ '.' :: fraction)) →
    IsDigits whole → IsDigits fraction → text.utf8ByteSize ≤ 1024 * 1024 →
      FieldCondition.read text
        = .ok (.leaf (.compare p comparator (.float (ofDigits negative whole fraction))))

/-- **The numbers of a text** are written back if they are finite; integers out of range are
    refused, and decimals are not.  A decimal that no finite float is near to is read as an infinite
    one, so the two kinds of numbers that cannot be represented are treated differently. -/
theorem numbers_read (text : String) : NumbersRead text where
  accepted _ := writesBack_of_read
  refused p comparator negative digits hp htext hdigits hlarge hbytes := by
    subst htext
    exact read_comparison_error hp (spells_signed negative hdigits) (literal_refused hdigits hlarge)
      hbytes
  decimal p comparator negative whole fraction hp htext hwhole hfraction hbytes := by
    subst htext
    exact read_comparison hp (spells_signed_decimal negative hwhole hfraction)
      (.number (number?_decimal negative hwhole.2 fraction)) hbytes

/-- A speed limit with a fraction is written back. -/
theorem numbers_read_speed :
    ∃ tokens, scan "speed < 12.5" = .ok tokens
      ∧ WritesBack (numerals (tokens.map Placed.token))
        (.leaf (.compare (.field "speed") .lessThan
          (.float (ofDigits false ['1', '2'] ['5'])))) := by
  have hspeed := numbers_read "speed < 12.5"
  have htext : "speed < 12.5" = comparisonText (.field "speed") .lessThan
      (signed false (['1', '2'] ++ '.' :: ['5'])) := by decide +kernel
  have hwhole : IsDigits ['1', '2'] := ⟨List.cons_ne_nil _ _, List.all_eq_true.mp rfl⟩
  have hfraction : IsDigits ['5'] := ⟨List.cons_ne_nil _ _, List.all_eq_true.mp rfl⟩
  have hread := hspeed.decimal _ _ false _ _ (by decide) htext hwhole hfraction (by decide +kernel)
  exact hspeed.accepted _ hread

/-- A power of ten beyond the floats. -/
def hugeWhole : List Char := '1' :: List.replicate 309 '0'

/-- **A decimal that overflows** is accepted, as a float that is not finite; its serialized form is
    not read back, and its text is refused.  The text shows the float as the word `inf`, which is
    scanned as a name. -/
theorem huge_not_written_back :
    ∃ c, FieldCondition.read (comparisonText (.field "mass") .equals
          (signed false (hugeWhole ++ '.' :: ['0']))) = .ok c
      ∧ ¬ FieldCondition.Finite c
      ∧ FieldCondition.ofForm? (FieldCondition.toForm c) ≠ some c
      ∧ ∃ position, FieldCondition.read (FieldCondition.text c)
          = .error (.unexpected .literal "inf" position) := by
  have hmass : (FieldPath.field "mass").Parsed := by decide
  have hwhole : IsDigits hugeWhole := by
    refine ⟨List.cons_ne_nil _ _, List.forall_mem_cons.mpr ⟨rfl, fun c hc => ?_⟩⟩
    rw [List.eq_of_mem_replicate hc]
    rfl
  have hfraction : IsDigits ['0'] := ⟨List.cons_ne_nil _ _, List.all_eq_true.mp rfl⟩
  have hlarge : overflow * 10 ^ ['0'].length ≤ digitsValue (hugeWhole ++ ['0']) := by decide +kernel
  have hinfinite : ¬ isFinite (ofDigits false hugeWhole ['0']) = true := by
    rw [isFinite_ofDigits_iff]
    omega
  have hnot : ¬ FieldCondition.Finite (.leaf (.compare (.field "mass") .equals
      (.float (ofDigits false hugeWhole ['0'])))) :=
    fun h => hinfinite (h _ (List.mem_singleton_self _))
  have hread : FieldCondition.read (comparisonText (.field "mass") .equals
      (signed false (hugeWhole ++ '.' :: ['0']))) = .ok (.leaf (.compare _ _ (.float _))) :=
    read_comparison hmass (spells_signed_decimal false hwhole hfraction)
      (.number (number?_decimal false hwhole.2 ['0'])) (by decide +kernel)
  have hlost : ¬ FieldCondition.Storable (.leaf (.compare (.field "mass") .equals
      (.float (ofDigits false hugeWhole ['0'])))) :=
    fun h => hnot fun t ht => (h t ht).literal
  refine ⟨_, hread, hnot, fun h => hlost ((FieldCondition.ofForm?_toForm_iff _).mp h), ?_⟩
  have hinf : Spells Follows "inf".toList [.name "inf"] :=
    (spells_word "inf" rfl).mono follows_not_continuesName
  have hword : Decimal.text (ofDigits false hugeWhole ['0']) = "inf" := by
    rw [text_ofDigits_of_overflow false hlarge, if_neg Bool.false_ne_true, String.empty_append]
  rw [text_comparison, Scalar.text, hword]
  exact read_comparison_error hmass hinf (fun _ _ => rfl) (by decide +kernel)

end Verdict.Condition
