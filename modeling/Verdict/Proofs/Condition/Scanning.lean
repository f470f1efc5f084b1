/-
  Scanning — texts whose tokens are known wherever they stand.

  1. **Specification** — `Spells stops cs ts`: in front of every text that begins as `stops` says,
     the characters `cs` are scanned as the tokens `ts`, and the scan goes on behind them.  Nothing
     is said of places.

  2. **Composition** — texts one after the other spell their tokens one after the other, if the
     second begins with a character that stops the first.

  3. **Lexemes** — signs, words, numbers and strings, each with what must not follow it.

  Core only.
-/
import Verdict.Condition.Token

namespace Verdict.Condition

open Decimal (isDigit)

/-- Wherever they stand in front of what stops them, the characters are scanned as the tokens. -/
def Spells (stops : Char → Prop) (cs : List Char) (ts : List Token) : Prop :=
  ∀ rest : List Char, (∀ c ∈ rest.head?, stops c) → ∀ position done,
    ∃ position', ∃ placed : List Placed, placed.map Placed.token = ts
      ∧ scanFrom position done (cs ++ rest) = scanFrom position' (placed.reverse ++ done) rest

/-! ## Composition -/

section

variable {stops stops' : Char → Prop} {cs cs' : List Char} {ts ts' : List Token} {c : Char}

/-- What stops less may be asked for less. -/
theorem Spells.mono (h : Spells stops cs ts) (hle : ∀ c, stops' c → stops c) :
    Spells stops' cs ts :=
  fun rest hrest => h rest fun c hc => hle c (hrest c hc)

/-- **One text after the other**: the second must begin as the first wants it.  The first is scanned
    in front of the second and the rest together, the second in front of the rest. -/
theorem Spells.append (h : Spells stops cs ts) (h' : Spells stops' (c :: cs') ts')
    (hc : stops c) : Spells stops' (cs ++ c :: cs') (ts ++ ts') := by
  intro rest hrest position done
  have hfirst : ∀ d ∈ (c :: cs' ++ rest).head?, stops d := by
    intro d hd
    obtain rfl : c = d := Option.some.inj hd
    exact hc
  obtain ⟨position₁, placed₁, htokens₁, hscan₁⟩ := h (c :: cs' ++ rest) hfirst position done
  obtain ⟨position₂, placed₂, htokens₂, hscan₂⟩ :=
    h' rest hrest position₁ (placed₁.reverse ++ done)
  refine ⟨position₂, placed₁ ++ placed₂, ?_, ?_⟩
  · rw [List.map_append, htokens₁, htokens₂]
  · rw [List.append_assoc, hscan₁, hscan₂, List.reverse_append, List.append_assoc]

/-- Blanks spell nothing. -/
theorem Spells.space (h : Spells stops cs ts) (hc : isSpace c = true) :
    Spells stops (c :: cs) ts := by
  intro rest hrest position done
  obtain ⟨position', placed, htokens, hscan⟩ := h rest hrest (position + 1) done
  refine ⟨position', placed, htokens, ?_⟩
  rw [List.cons_append, scanFrom, if_pos hc, hscan]

/-- One step of the scan, where a lexeme begins. -/
theorem scanFrom_lexeme {position : Nat} {done : List Placed} {l : Lexeme}
    (hc : isSpace c = false) (h : lexeme position c cs = .ok l) :
    scanFrom position done (c :: cs)
      = scanFrom (position + l.width) (⟨l.token, position⟩ :: done) l.rest := by
  rw [scanFrom, hc, if_neg Bool.false_ne_true]
  split
  · rename_i e heq
    rw [h] at heq
    cases heq
  · rename_i l' heq
    rw [h] at heq
    obtain rfl := Except.ok.inj heq
    rfl

/-- A text that is spelled as some tokens is scanned as them. -/
theorem scan_of_spells {text : String} (h : Spells stops text.toList ts) :
    ∃ placed, placed.map Placed.token = ts ∧ scan text = .ok placed := by
  obtain ⟨position, placed, htokens, hscan⟩ := h [] (fun c hc => by cases hc) 0 []
  refine ⟨placed, htokens, ?_⟩
  rw [List.append_nil, List.append_nil, scanFrom, List.reverse_reverse] at hscan
  exact hscan

/-- What holds of the token of every lexeme holds of every token that is scanned.  By induction
    along the scan; the tokens done so far are carried in reverse. -/
theorem forall_of_scanFrom {P : Token → Prop} (hP : ∀ {position : Nat} {c : Char} {cs : List Char}
    {l : Lexeme}, lexeme position c cs = .ok l → P l.token) {position : Nat}
    {done placed : List Placed} (h : scanFrom position done cs = .ok placed)
    (hdone : ∀ p ∈ done, P p.token) : ∀ p ∈ placed, P p.token := by
  fun_induction scanFrom position done cs with
  | case1 =>
      cases h
      exact fun p hp => hdone p (List.mem_reverse.mp hp)
  | case2 _ _ _ _ _ ih => exact ih h hdone
  | case3 => cases h
  | case4 position done c cs hspace l hl ih =>
      exact ih h (List.forall_mem_cons.mpr ⟨hP hl, hdone⟩)

/-- A lexeme spells its token. -/
theorem spells_lexeme {t : Token} (hc : isSpace c = false)
    (h : ∀ rest : List Char, (∀ d ∈ rest.head?, stops d) → ∀ position, ∃ width,
      lexeme position c (cs ++ rest) = .ok ⟨t, width, rest⟩) : Spells stops (c :: cs) [t] := by
  intro rest hrest position done
  obtain ⟨width, hlexeme⟩ := h rest hrest position
  refine ⟨position + width, [⟨t, position⟩], rfl, ?_⟩
  rw [List.cons_append, scanFrom_lexeme hc hlexeme]
  rfl

end

/-! ## Signs -/

theorem spells_opening : Spells (fun _ => True) ['('] [.opening] :=
  spells_lexeme rfl fun _ _ _ => ⟨1, rfl⟩

theorem spells_closing : Spells (fun _ => True) [')'] [.closing] :=
  spells_lexeme rfl fun _ _ _ => ⟨1, rfl⟩

theorem spells_dot : Spells (fun _ => True) ['.'] [.dot] :=
  spells_lexeme rfl fun _ _ _ => ⟨1, rfl⟩

theorem spells_andSign : Spells (fun _ => True) ['&', '&'] [.andSign] :=
  spells_lexeme rfl fun _ _ _ => ⟨2, rfl⟩

theorem spells_orSign : Spells (fun _ => True) ['|', '|'] [.orSign] :=
  spells_lexeme rfl fun _ _ _ => ⟨2, rfl⟩

/-- A text that does not go on with an equals sign. -/
theorem ne_equals {rest : List Char} (hrest : ∀ c ∈ rest.head?, c ≠ '=') (others : List Char) :
    rest ≠ '=' :: others := by
  rintro rfl
  exact hrest '=' rfl rfl

/-- A negation: an equals sign behind it would make it a comparator. -/
theorem spells_notSign : Spells (· ≠ '=') ['!'] [.notSign] := by
  refine spells_lexeme rfl fun rest hrest position => ⟨1, ?_⟩
  rw [List.nil_append, lexeme]
  exact ne_equals hrest

/-- A comparator: an equals sign behind it could make it another one. -/
theorem spells_comparator (c : Comparator) :
    Spells (· ≠ '=') c.symbol.toList [.comparator c] := by
  -- Two characters are complete; only behind one may an equals sign not follow.
  cases c with
  | equals => exact spells_lexeme rfl fun _ _ _ => ⟨2, rfl⟩
  | notEquals => exact spells_lexeme rfl fun _ _ _ => ⟨2, rfl⟩
  | lessThanOrEqual => exact spells_lexeme rfl fun _ _ _ => ⟨2, rfl⟩
  | greaterThanOrEqual => exact spells_lexeme rfl fun _ _ _ => ⟨2, rfl⟩
  | lessThan =>
      show Spells _ ['<'] _
      refine spells_lexeme rfl fun rest hrest position => ⟨1, ?_⟩
      rw [List.nil_append, lexeme]
      exact ne_equals hrest
  | greaterThan =>
      show Spells _ ['>'] _
      refine spells_lexeme rfl fun rest hrest position => ⟨1, ?_⟩
      rw [List.nil_append, lexeme]
      exact ne_equals hrest

/-! ## Words -/

/-- No digit starts a name, so a word is never taken for a number. -/
theorem startsName_not_isDigit {c : Char} (h : startsName c = true) : isDigit c = false := by
  simp only [startsName, isDigit, Bool.or_eq_true, Bool.and_eq_true, decide_eq_true_eq, beq_iff_eq,
    Char.le_def, UInt32.le_iff_toNat_le, Bool.and_eq_false_iff, decide_eq_false_iff_not] at h ⊢
  rcases h with (⟨hge, _⟩ | ⟨hge, _⟩) | rfl
  · right
    intro hle
    exact absurd (Nat.le_trans hge hle) (by decide)
  · right
    intro hle
    exact absurd (Nat.le_trans hge hle) (by decide)
  · right
    decide

theorem isSpace_of_startsName {c : Char} (h : startsName c = true) : isSpace c = false := by
  refine Bool.eq_false_iff.mpr fun hspace => ?_
  simp only [isSpace, Bool.or_eq_true, beq_iff_eq] at hspace
  rcases hspace with ((rfl | rfl) | rfl) | rfl <;> exact nomatch h

theorem isSpace_of_number {c : Char} (h : c = '-' ∨ isDigit c = true) : isSpace c = false := by
  refine Bool.eq_false_iff.mpr fun hspace => ?_
  simp only [isSpace, Bool.or_eq_true, beq_iff_eq] at hspace
  rcases hspace with ((rfl | rfl) | rfl) | rfl <;> rcases h with h | h <;> exact nomatch h

/-- A row that is taken as far as it goes, in front of what stops it. -/
theorem span_append {p : Char → Bool} {cs rest : List Char} (hcs : ∀ c ∈ cs, p c = true)
    (hrest : ∀ c ∈ rest.head?, p c = false) :
    (cs ++ rest).takeWhile p = cs ∧ (cs ++ rest).dropWhile p = rest := by
  rw [List.takeWhile_append_of_pos hcs, List.dropWhile_append_of_pos hcs]
  rcases rest with _ | ⟨d, rest⟩
  · exact ⟨List.append_nil cs, rfl⟩
  · have hd := hrest d rfl
    rw [List.takeWhile_cons_of_neg (ne_true_of_eq_false hd),
      List.dropWhile_cons_of_neg (ne_true_of_eq_false hd), List.append_nil]
    exact ⟨rfl, rfl⟩

/-- A lexeme that begins as a name is a word: none of the signs does, and no quote and no number. -/
theorem lexeme_word {c : Char} (h : startsName c = true) (position : Nat) (cs : List Char) :
    lexeme position c cs = .ok (readWord c cs) := by
  unfold lexeme
  split
  case h_17 =>
    have hquote : ¬(c = '\x27' ∨ c = '"') := by
      rintro (rfl | rfl) <;> exact nomatch h
    have hnumber : ¬(c = '-' ∨ isDigit c = true) := by
      rintro (rfl | hdigit)
      · exact nomatch h
      · rw [startsName_not_isDigit h] at hdigit
        exact nomatch hdigit
    rw [if_neg hquote, if_neg hnumber, if_pos h]
  all_goals exact nomatch h

/-- **A word** spells its token, where it does not go on. -/
theorem spells_word (word : String) (h : isWord word = true) :
    Spells (continuesName · = false) word.toList [.ofWord word] := by
  unfold isWord at h
  cases hword : word.toList with
  | nil => rw [hword] at h; exact nomatch h
  | cons c cs =>
      rw [hword, Bool.and_eq_true, List.all_eq_true] at h
      obtain ⟨hc, hcs⟩ := h
      refine spells_lexeme (isSpace_of_startsName hc) fun rest hrest position =>
        ⟨(c :: cs).length, ?_⟩
      obtain ⟨htake, hdrop⟩ := span_append hcs hrest
      rw [lexeme_word hc, readWord, htake, hdrop, ← hword, String.ofList_toList]

/-! ## Numbers -/

/-- A lexeme that begins with a digit or a minus is a number. -/
theorem lexeme_number {c : Char} (h : c = '-' ∨ isDigit c = true) (position : Nat)
    (cs : List Char) : lexeme position c cs = .ok (readNumber c cs) := by
  unfold lexeme
  split
  case h_17 =>
    have hquote : ¬(c = '\x27' ∨ c = '"') := by
      rintro (rfl | rfl) <;> rcases h with h | h <;> exact nomatch h
    rw [if_neg hquote, if_pos h]
  all_goals rcases h with h | h <;> exact nomatch h

/-- What may follow a number. -/
def EndsNumber (c : Char) : Prop := isDigit c = false ∧ c ≠ '.'

/-- **A number without a point** spells its token. -/
theorem spells_whole {c : Char} {cs : List Char} (hc : c = '-' ∨ isDigit c = true)
    (hcs : ∀ d ∈ cs, isDigit d = true) :
    Spells EndsNumber (c :: cs) [.number (String.ofList (c :: cs))] := by
  refine spells_lexeme (isSpace_of_number hc) fun rest hrest position => ⟨(c :: cs).length, ?_⟩
  obtain ⟨htake, hdrop⟩ := span_append hcs fun d hd => (hrest d hd).1
  rw [lexeme_number hc, readNumber, htake, hdrop]
  dsimp only
  split
  · exact absurd rfl (hrest '.' rfl).2
  · rfl

/-- **A number with a point** spells its token.  The digits in front end at the point, those behind
    it where the rest begins; the point belongs to the number because a digit follows. -/
theorem spells_decimal {c f : Char} {cs fs : List Char} (hc : c = '-' ∨ isDigit c = true)
    (hcs : ∀ d ∈ cs, isDigit d = true) (hf : isDigit f = true) (hfs : ∀ d ∈ fs, isDigit d = true) :
    Spells EndsNumber (c :: (cs ++ '.' :: f :: fs))
      [.number (String.ofList (c :: (cs ++ '.' :: f :: fs)))] := by
  refine spells_lexeme (isSpace_of_number hc) fun rest hrest position =>
    ⟨(c :: (cs ++ '.' :: f :: fs)).length, ?_⟩
  have hpoint : ∀ d ∈ ('.' :: f :: (fs ++ rest)).head?, isDigit d = false := by
    intro d hd
    obtain rfl : '.' = d := Option.some.inj hd
    rfl
  obtain ⟨htake, hdrop⟩ := span_append hcs hpoint
  obtain ⟨htake', hdrop'⟩ := span_append hfs fun d hd => (hrest d hd).1
  rw [lexeme_number hc, List.append_assoc, List.cons_append, List.cons_append, readNumber, htake,
    hdrop]
  show Except.ok (if isDigit f = true then _ else _) = _
  rw [if_pos hf]
  dsimp only
  rw [htake', hdrop', List.cons_append]

/-! ## Strings -/

/-- A string is read up to the quote that closes it.  A quote inside is escaped, and so is the sign
    that escapes; every other character stands for itself.  By induction on the string, for every
    place and whatever has been read of it. -/
theorem readString_escaped (opened : Nat) (s rest : List Char) (position : Nat)
    (done : List Char) : ∃ width,
      readString '"' opened position done (s.flatMap Text.escaped ++ '"' :: rest)
        = .ok ⟨.string (String.ofList (done.reverse ++ s)), width, rest⟩ := by
  induction s generalizing position done with
  | nil =>
      rw [List.append_nil]
      refine ⟨position + 1 - opened, ?_⟩
      show readString '"' opened position done ('"' :: rest) = _
      rw [readString.eq_def]
      dsimp only
      rw [if_pos rfl]
  | cons c s ih =>
      have hdone : done.reverse ++ c :: s = (c :: done).reverse ++ s := by
        rw [List.reverse_cons, List.append_assoc, List.singleton_append]
      rw [List.flatMap_cons, List.append_assoc, hdone]
      by_cases hc : c = '"' ∨ c = '\\'
      · -- Two characters of the text for one of the string.
        obtain ⟨width, hread⟩ := ih (position + 2) (c :: done)
        refine ⟨width, ?_⟩
        rw [Text.escaped, if_pos hc]
        show readString '"' opened position done ('\\' :: c :: (_ ++ _)) = _
        rw [← hread, readString.eq_def]
        rcases hc with rfl | rfl <;> rfl
      · -- The character itself, however many bytes it has.
        obtain ⟨width, hread⟩ := ih (position + c.utf8Size) (c :: done)
        refine ⟨width, ?_⟩
        rw [Text.escaped, if_neg hc, List.singleton_append, ← hread]
        rw [not_or] at hc
        rw [readString.eq_def]
        dsimp only
        rw [if_neg hc.1, if_neg hc.2]

/-- **A quoted string** spells the string, whatever its characters. -/
theorem spells_quote (s : String) : Spells (fun _ => True) (Text.quote s).toList [.string s] := by
  rw [Text.quote, String.toList_ofList, List.cons_append]
  refine spells_lexeme rfl fun rest _ position => ?_
  obtain ⟨width, hread⟩ := readString_escaped position s.toList rest (position + 1) []
  refine ⟨width, ?_⟩
  rw [List.append_assoc, List.singleton_append]
  rw [List.reverse_nil, List.nil_append, String.ofList_toList] at hread
  exact hread

end Verdict.Condition
