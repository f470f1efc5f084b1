/-
  Places — where the tokens of a text stand, and what stands where a text cannot be read.

  1. **Specification** — `StandsAt text position piece`: the piece stands in the text, and the bytes
     in front of it are as many as the position says.  So the position is a character boundary
     (`StandsAt.isValid`), and what stands at it is known (`StandsAt.unique`).

  2. **Invariant** — `Remains text position cs`: of the text the characters `cs` remain behind this
     many bytes.  A lexeme takes a nonempty word from the front of what remains, and its width is
     the number of bytes of that word (`lexeme_takes`).

  3. **Tokens** — so tokens stand at ascending boundaries inside the text (`scanFrom_places`).

  4. **Errors** — `Misread`: what is reported stands at its place, with ONE exception.  A backslash
     in front of a character that no escape knows is shown with the first BYTE of that character.
-/
import Mathlib.Data.List.TakeWhile
import Mathlib.Data.String.Basic
import Verdict.Proofs.Condition.Scanning

namespace Verdict.Condition

open Decimal (isDigit)

/-! ## What stands at a byte -/

/-- The piece stands in the text behind as many bytes as the position says. -/
def StandsAt (text : String) (position : Nat) (piece : String) : Prop :=
  ∃ before after : String, text = before ++ piece ++ after ∧ before.utf8ByteSize = position

/-- Of the text these characters remain behind as many bytes as the position says. -/
def Remains (text : String) (position : Nat) (cs : List Char) : Prop :=
  ∃ before : List Char, text.toList = before ++ cs ∧ String.utf8Len before = position

section

variable {text piece : String} {position : Nat} {cs rest : List Char}

/-- Where something stands is a character boundary. -/
theorem StandsAt.isValid (h : StandsAt text position piece) :
    String.Pos.Raw.IsValid text ⟨position⟩ := by
  obtain ⟨before, after, htext, hbefore⟩ := h
  refine String.Pos.Raw.isValid_iff_exists_append.mpr ⟨before, piece ++ after, ?_, ?_⟩
  · rw [htext, String.append_assoc]
  · rw [← hbefore]
    rfl

theorem remains_whole (text : String) : Remains text 0 text.toList :=
  ⟨[], rfl, String.utf8Len_nil⟩

/-- What stands at a place is the beginning of what remains. -/
theorem standsAt_iff_remains :
    StandsAt text position piece ↔ ∃ rest, Remains text position (piece.toList ++ rest) := by
  constructor
  · rintro ⟨before, after, rfl, rfl⟩
    refine ⟨after.toList, before.toList, ?_, String.utf8Len_toList before⟩
    rw [String.toList_append, String.toList_append, List.append_assoc]
  · rintro ⟨rest, before, htext, hbefore⟩
    refine ⟨String.ofList before, String.ofList rest, ?_, ?_⟩
    · rw [← String.toList_inj, htext, String.toList_append, String.toList_append,
        String.toList_ofList, String.toList_ofList, List.append_assoc]
    · rw [String.utf8ByteSize_ofList, hbefore]

theorem Remains.standsAt (word : List Char) (h : Remains text position (word ++ rest)) :
    StandsAt text position (String.ofList word) := by
  refine standsAt_iff_remains.mpr ⟨rest, ?_⟩
  rw [String.toList_ofList]
  exact h

/-- What remains at a place is known: the number of bytes in front decides where the text is cut. -/
theorem Remains.unique {cs' : List Char} (h : Remains text position cs)
    (h' : Remains text position cs') : cs = cs' := by
  obtain ⟨before, htext, hbefore⟩ := h
  obtain ⟨before', htext', hbefore'⟩ := h'
  -- Of two beginnings with as many bytes neither is longer: a character has a byte at least.
  have hempty : ∀ {front more : List Char}, String.utf8Len (front ++ more) = String.utf8Len front →
      more = [] := by
    intro front more hlen
    rw [String.utf8Len_append] at hlen
    exact String.utf8Len_eq_zero.mp (by omega)
  rcases List.append_eq_append_iff.mp (htext.symm.trans htext')
    with ⟨more, rfl, hcs⟩ | ⟨more, rfl, hcs⟩
  · rw [hempty (hbefore'.trans hbefore.symm)] at hcs
    exact hcs
  · rw [hempty (hbefore.trans hbefore'.symm)] at hcs
    exact hcs.symm

/-- Behind a word remains what remained behind it. -/
theorem Remains.append (word : List Char) (h : Remains text position (word ++ rest)) :
    Remains text (position + String.utf8Len word) rest := by
  obtain ⟨before, htext, hbefore⟩ := h
  refine ⟨before ++ word, ?_, ?_⟩
  · rw [htext, List.append_assoc]
  · rw [String.utf8Len_append, hbefore]

theorem utf8Len_singleton (c : Char) : String.utf8Len [c] = c.utf8Size := by
  rw [String.utf8Len_cons, String.utf8Len_nil, Nat.zero_add]

/-- Behind a character remains what stood behind it. -/
theorem Remains.tail {c : Char} (h : Remains text position (c :: cs)) :
    Remains text (position + c.utf8Size) cs := by
  rw [← utf8Len_singleton c]
  exact h.append [c]

/-- What stands in front and what remains are all of the text. -/
theorem Remains.position_eq (h : Remains text position cs) :
    position + String.utf8Len cs = text.utf8ByteSize := by
  obtain ⟨before, htext, hbefore⟩ := h
  rw [← String.utf8Len_toList, htext, String.utf8Len_append, hbefore]

end

/-! ## Words of known width -/

theorem utf8Size_eq_one {c : Char} (h : c.toNat ≤ 127) : c.utf8Size = 1 := by
  rw [Char.utf8Size_eq_one_iff, UInt32.le_iff_toNat_le]
  exact h

/-- Words of one-byte characters have as many bytes as characters. -/
theorem utf8Len_eq_length {cs : List Char} (h : ∀ c ∈ cs, c.toNat ≤ 127) :
    String.utf8Len cs = cs.length := by
  induction cs with
  | nil => rfl
  | cons c cs ih =>
      obtain ⟨hc, hcs⟩ := List.forall_mem_cons.mp h
      rw [String.utf8Len_cons, ih hcs, utf8Size_eq_one hc, List.length_cons]

theorem toNat_le_of_isDigit {c : Char} (h : isDigit c = true) : c.toNat ≤ 127 := by
  simp only [isDigit, Bool.and_eq_true, decide_eq_true_eq, Char.le_def, UInt32.le_iff_toNat_le] at h
  exact Nat.le_trans h.2 (by decide)

theorem toNat_le_of_number {c : Char} (h : c = '-' ∨ isDigit c = true) : c.toNat ≤ 127 := by
  rcases h with rfl | h
  · decide
  · exact toNat_le_of_isDigit h

theorem toNat_le_of_isSpace {c : Char} (h : isSpace c = true) : c.toNat ≤ 127 := by
  simp only [isSpace, Bool.or_eq_true, beq_iff_eq] at h
  rcases h with ((rfl | rfl) | rfl) | rfl <;> decide

theorem toNat_le_of_quote {c : Char} (h : c = '\x27' ∨ c = '"') : c.toNat ≤ 127 := by
  rcases h with rfl | rfl <;> decide

theorem toNat_le_of_unescaped? {c x : Char} (h : unescaped? c = some x) : c.toNat ≤ 127 := by
  unfold unescaped? at h
  split at h <;> first | decide | cases h

theorem toNat_le_of_startsName {c : Char} (h : startsName c = true) : c.toNat ≤ 127 := by
  simp only [startsName, Bool.or_eq_true, Bool.and_eq_true, decide_eq_true_eq, beq_iff_eq,
    Char.le_def, UInt32.le_iff_toNat_le] at h
  rcases h with (⟨_, hle⟩ | ⟨_, hle⟩) | rfl
  · exact Nat.le_trans hle (by decide)
  · exact Nat.le_trans hle (by decide)
  · decide

theorem toNat_le_of_continuesName {c : Char} (h : continuesName c = true) : c.toNat ≤ 127 := by
  rw [continuesName, Bool.or_eq_true] at h
  rcases h with h | h
  · exact toNat_le_of_startsName h
  · exact toNat_le_of_isDigit h

/-! ## Lexemes as words -/

/-- The lexeme takes a word from the front of the characters, and its width counts the bytes. -/
structure Lexeme.Takes (l : Lexeme) (word cs : List Char) : Prop where
  front : cs = word ++ l.rest
  nonempty : word ≠ []
  width : String.utf8Len word = l.width

/-- An escape that stands for a character has two bytes. -/
theorem utf8Len_escape {e x : Char} (h : unescaped? e = some x) :
    String.utf8Len ['\\', e] = 2 :=
  utf8Len_eq_length (List.forall_mem_cons.mpr
    ⟨by decide, List.forall_mem_singleton.mpr (toNat_le_of_unescaped? h)⟩)

/-- What is read of a string is taken, up to its closing quote.  The width counts from where the
    string was opened, so the statement speaks of the place reached; the induction is on the
    reader. -/
theorem readString_splits {quote : Char} {opened position : Nat} {done cs : List Char} {l : Lexeme}
    (hquote : quote.toNat ≤ 127) (hopened : opened ≤ position)
    (h : readString quote opened position done cs = .ok l) :
    ∃ inside, cs = inside ++ l.rest ∧ opened + l.width = position + String.utf8Len inside := by
  fun_induction readString quote opened position done cs with
  | case1 => cases h
  | case2 position done cs =>
      -- The closing quote, which is one byte.
      cases h
      refine ⟨[quote], rfl, ?_⟩
      have hwidth : String.utf8Len [quote] = 1 :=
        utf8Len_eq_length (List.forall_mem_singleton.mpr hquote)
      rw [hwidth]
      show opened + (position + 1 - opened) = position + 1
      omega
  | case3 => cases h
  | case4 position done e rest x hx _ ih =>
      -- An escape: two characters of one byte each.
      obtain ⟨inside, hrest, hwidth⟩ := ih (by omega) h
      refine ⟨['\\', e] ++ inside, ?_, ?_⟩
      · rw [hrest]
        rfl
      · rw [String.utf8Len_append, utf8Len_escape hx, hwidth]
        omega
  | case5 => cases h
  | case6 position done c cs _ _ ih =>
      obtain ⟨inside, hrest, hwidth⟩ := ih (by omega) h
      refine ⟨c :: inside, ?_, ?_⟩
      · rw [hrest]
        rfl
      · rw [String.utf8Len_cons, hwidth]
        omega

/-- A number is the word that is taken: digits, and with a point and a digit behind it those behind
    the point as well. -/
theorem readNumber_takes {c : Char} (hc : c.toNat ≤ 127) (cs : List Char) :
    ∃ word, (readNumber c cs).Takes word (c :: cs)
      ∧ (readNumber c cs).token = .number (String.ofList word) := by
  have htake : ∀ {cs : List Char}, ∀ d ∈ cs.takeWhile isDigit, d.toNat ≤ 127 :=
    fun d hd => toNat_le_of_isDigit (List.mem_takeWhile_imp hd)
  have hwhole : ∀ d ∈ c :: cs.takeWhile isDigit, d.toNat ≤ 127 :=
    List.forall_mem_cons.mpr ⟨hc, htake⟩
  have hcs : c :: cs = c :: cs.takeWhile isDigit ++ cs.dropWhile isDigit := by
    rw [List.cons_append, List.takeWhile_append_dropWhile]
  unfold readNumber
  dsimp only
  split
  · rename_i d rest hrest
    rw [hrest] at hcs
    split
    · -- Behind the point the fraction is taken as far as it goes.
      rename_i hd
      have hfraction : ∀ e ∈ '.' :: d :: rest.takeWhile isDigit, e.toNat ≤ 127 :=
        List.forall_mem_cons.mpr
          ⟨by decide, List.forall_mem_cons.mpr ⟨toNat_le_of_isDigit hd, htake⟩⟩
      have hrest : rest = rest.takeWhile isDigit ++ rest.dropWhile isDigit :=
        List.takeWhile_append_dropWhile.symm
      refine ⟨c :: cs.takeWhile isDigit ++ '.' :: d :: rest.takeWhile isDigit,
        ⟨?_, List.cons_ne_nil _ _, utf8Len_eq_length fun e he => ?_⟩, rfl⟩
      · rw [hcs, List.append_assoc, List.append_right_inj]
        exact congrArg ('.' :: d :: ·) hrest
      · rcases List.mem_append.mp he with he | he
        · exact hwhole e he
        · exact hfraction e he
    · exact ⟨_, ⟨hcs, List.cons_ne_nil _ _, utf8Len_eq_length hwhole⟩, rfl⟩
  · exact ⟨_, ⟨hcs, List.cons_ne_nil _ _, utf8Len_eq_length hwhole⟩, rfl⟩

/-- A word is the word that is taken. -/
theorem readWord_takes {c : Char} (hc : startsName c = true) (cs : List Char) :
    ∃ word, (readWord c cs).Takes word (c :: cs)
      ∧ (readWord c cs).token = .ofWord (String.ofList word) := by
  refine ⟨c :: cs.takeWhile continuesName, ⟨?_, List.cons_ne_nil _ _, ?_⟩, rfl⟩
  · rw [List.cons_append]
    unfold readWord
    rw [List.takeWhile_append_dropWhile]
  · refine utf8Len_eq_length fun d hd => ?_
    rcases List.mem_cons.mp hd with rfl | hd
    · exact toNat_le_of_startsName hc
    · exact toNat_le_of_continuesName (List.mem_takeWhile_imp hd)

/-- The token of a sign is neither a name nor a number. -/
structure Token.IsSign (t : Token) : Prop where
  ne_name : ∀ name, t ≠ .name name
  ne_number : ∀ raw, t ≠ .number raw

/-- **What a lexeme can be**: a sign of one character or two, or a string, a number or a word, each
    of which has a reader of its own. -/
theorem lexeme_cases {position : Nat} {c : Char} {cs : List Char} {l : Lexeme}
    (h : lexeme position c cs = .ok l) :
    (∃ word, l.Takes word (c :: cs) ∧ l.token.IsSign)
      ∨ (c = '\x27' ∨ c = '"') ∧ readString c position (position + 1) [] cs = .ok l
      ∨ (c = '-' ∨ isDigit c = true) ∧ l = readNumber c cs
      ∨ startsName c = true ∧ l = readWord c cs := by
  unfold lexeme at h
  split at h
  case h_17 =>
    split at h
    · rename_i hquote
      exact .inr (.inl ⟨hquote, h⟩)
    · split at h
      · rename_i hnumber
        cases h
        exact .inr (.inr (.inl ⟨hnumber, rfl⟩))
      · split at h
        · rename_i hword
          cases h
          exact .inr (.inr (.inr ⟨hword, rfl⟩))
        · cases h
  all_goals first
    | (cases h; exact .inl ⟨[_], ⟨rfl, List.cons_ne_nil _ _, rfl⟩, nofun, nofun⟩)
    | (cases h; exact .inl ⟨[_, _], ⟨rfl, List.cons_ne_nil _ _, rfl⟩, nofun, nofun⟩)
    | cases h

/-- **A lexeme takes a word** from the front of the characters, whichever reader it came from. -/
theorem lexeme_takes {position : Nat} {c : Char} {cs : List Char} {l : Lexeme}
    (h : lexeme position c cs = .ok l) : ∃ word, l.Takes word (c :: cs) := by
  rcases lexeme_cases h with ⟨word, htakes, -⟩ | ⟨hquote, hstring⟩ | ⟨hnumber, rfl⟩ | ⟨hword, rfl⟩
  · exact ⟨word, htakes⟩
  · -- The quote in front, and what is read up to the one that closes it.
    have hc := toNat_le_of_quote hquote
    obtain ⟨inside, hcs, hwidth⟩ := readString_splits hc (Nat.le_succ position) hstring
    refine ⟨c :: inside, ?_, List.cons_ne_nil _ _, ?_⟩
    · rw [hcs]
      rfl
    · rw [String.utf8Len_cons, utf8Size_eq_one hc]
      omega
  · obtain ⟨word, htakes, _⟩ := readNumber_takes (toNat_le_of_number hnumber) cs
    exact ⟨word, htakes⟩
  · obtain ⟨word, htakes, _⟩ := readWord_takes hword cs
    exact ⟨word, htakes⟩

/-! ## Where the tokens stand -/

section

variable {text : String} {position : Nat} {c : Char} {cs : List Char} {l : Lexeme}

/-- Behind a lexeme remains what it leaves, and that is less. -/
theorem Remains.lexeme (h : Remains text position (c :: cs))
    (hl : lexeme position c cs = .ok l) : Remains text (position + l.width) l.rest := by
  obtain ⟨word, htakes⟩ := lexeme_takes hl
  rw [htakes.front] at h
  rw [← htakes.width]
  exact h.append word

theorem Lexeme.width_pos (hl : lexeme position c cs = .ok l) : 0 < l.width := by
  obtain ⟨word, htakes⟩ := lexeme_takes hl
  rw [← htakes.width]
  exact Nat.pos_of_ne_zero fun hzero => htakes.nonempty (String.utf8Len_eq_zero.mp hzero)

theorem Remains.space (h : Remains text position (c :: cs)) (hc : isSpace c = true) :
    Remains text (position + 1) cs := by
  rw [← utf8Size_eq_one (toNat_le_of_isSpace hc)]
  exact h.tail

/-- A place with something behind it is a character boundary inside the text. -/
structure Inside (text : String) (position : Nat) : Prop where
  isValid : String.Pos.Raw.IsValid text ⟨position⟩
  lt : position < text.utf8ByteSize

theorem Remains.inside (h : Remains text position (c :: cs)) : Inside text position := by
  have hstands := h.standsAt [c]
  have hlen := h.position_eq
  rw [String.utf8Len_cons] at hlen
  have hc := c.utf8Size_pos
  exact ⟨hstands.isValid, by omega⟩

/-- What holds of a row of tokens, the last one first, that was read up to a place. -/
structure Scanned (text : String) (position : Nat) (done : List Placed) : Prop where
  inside : ∀ t ∈ done, Inside text t.position
  before : ∀ t ∈ done, t.position < position
  descending : done.Pairwise fun t t' => t'.position < t.position

theorem scanned_nil : Scanned text position [] := ⟨nofun, nofun, .nil⟩

theorem Scanned.mono {done : List Placed} {position' : Nat} (h : Scanned text position done)
    (hle : position ≤ position') : Scanned text position' done :=
  ⟨h.inside, fun t ht => Nat.lt_of_lt_of_le (h.before t ht) hle, h.descending⟩

/-- One more token, at the place where the row stops. -/
theorem Scanned.cons {done : List Placed} {token : Token} (h : Scanned text position done)
    (hinside : Inside text position) (width : Nat) (hwidth : 0 < width) :
    Scanned text (position + width) (⟨token, position⟩ :: done) := by
  refine ⟨?_, ?_, ?_⟩
  · exact List.forall_mem_cons.mpr ⟨hinside, h.inside⟩
  · refine List.forall_mem_cons.mpr ⟨?_, fun t ht => ?_⟩
    · show position < position + width
      omega
    · have hbefore := h.before t ht
      omega
  · exact List.pairwise_cons.mpr ⟨h.before, h.descending⟩

/-- **Tokens stand at ascending boundaries** inside the text.  `Scanned` is the invariant of the
    scan: a blank moves the place on, a lexeme adds a token there and moves it on by its width,
    which is never zero. -/
theorem scanFrom_places {done ts : List Placed} (hdone : Scanned text position done)
    (hcs : Remains text position cs) (h : scanFrom position done cs = .ok ts) :
    (∀ t ∈ ts, Inside text t.position) ∧ ts.Pairwise fun t t' => t.position < t'.position := by
  fun_induction scanFrom position done cs with
  | case1 position done =>
      cases h
      refine ⟨fun t ht => hdone.inside t (List.mem_reverse.mp ht), ?_⟩
      exact List.pairwise_reverse.mpr hdone.descending
  | case2 position done c cs hc ih =>
      exact ih (hdone.mono (Nat.le_succ position)) (hcs.space hc) h
  | case3 => cases h
  | case4 position done c cs _ l hl ih =>
      exact ih (hdone.cons hcs.inside l.width (Lexeme.width_pos hl)) (hcs.lexeme hl) h

end

/-! ## What cannot be read -/

/-- Why the characters at a place are no lexeme, and what stands there. -/
inductive Misread (text : String) : SyntaxError → Prop
  /-- A sign that begins no token, or half of a sign. -/
  | sign {expected : Expectation} {c : Char} {position : Nat}
      (stands : StandsAt text position (String.ofList [c])) :
      Misread text (.unexpected expected (String.ofList [c]) position)
  /-- An escape that stands for nothing. -/
  | escape {c : Char} {position : Nat} (unknown : unescaped? c = none)
      (stands : StandsAt text position (String.ofList ['\\', c])) :
      Misread text (.unexpected .escape (String.ofList ['\\', leadByte c]) position)
  /-- A quote that opens a string which is not closed. -/
  | unclosed {quote : Char} {position : Nat}
      (stands : StandsAt text position (String.ofList [quote])) :
      Misread text (.unterminatedString position)

section

variable {text : String} {position : Nat} {c : Char} {cs : List Char} {e : SyntaxError}

/-- What is wrong with a string is the quote that opens it, or an escape inside.  By induction along
    the reader, with the place where the string was opened kept aside. -/
theorem readString_error {quote : Char} {opened : Nat} {done : List Char}
    (hopened : StandsAt text opened (String.ofList [quote])) (hcs : Remains text position cs)
    (h : readString quote opened position done cs = .error e) : Misread text e := by
  fun_induction readString quote opened position done cs with
  | case1 =>
      cases h
      exact .unclosed hopened
  | case2 => cases h
  | case3 =>
      cases h
      exact .unclosed hopened
  | case4 position done e' rest x hx _ ih =>
      refine ih ?_ h
      rw [← utf8Len_escape hx]
      exact hcs.append ['\\', e']
  | case5 position done e' rest hx _ =>
      cases h
      exact .escape hx (hcs.standsAt ['\\', e'])
  | case6 position done c cs _ _ ih => exact ih hcs.tail h

/-- Where no lexeme begins, the character itself is what is reported, unless a string went wrong. -/
theorem lexeme_error (hcs : Remains text position (c :: cs))
    (h : lexeme position c cs = .error e) : Misread text e := by
  have hc : StandsAt text position (String.ofList [c]) := hcs.standsAt [c]
  unfold lexeme at h
  split at h
  case h_17 =>
    split at h
    · rename_i hquote
      refine readString_error hc ?_ h
      rw [← utf8Size_eq_one (toNat_le_of_quote hquote)]
      exact hcs.tail
    · split at h
      · cases h
      · split at h
        · cases h
        · cases h
          exact .sign hc
  all_goals first
    | (cases h; exact .sign hc)
    | cases h

/-- **What a scan cannot read** stands where it says: it stops at the first lexeme that is none. -/
theorem scanFrom_error {done : List Placed} (hcs : Remains text position cs)
    (h : scanFrom position done cs = .error e) : Misread text e := by
  fun_induction scanFrom position done cs with
  | case1 => cases h
  | case2 position done c cs hc ih => exact ih (hcs.space hc) h
  | case3 position done c cs _ e' he' =>
      cases h
      exact lexeme_error hcs he'
  | case4 position done c cs _ l hl ih => exact ih (hcs.lexeme hl) h

end

/-! ## What is reported -/

/-- A character up to 127 is one byte, and the byte is its code. -/
theorem utf8EncodeChar_of_le {c : Char} (h : c.toNat ≤ 127) :
    ∃ b, String.utf8EncodeChar c = [b] ∧ Char.ofNat b.toNat = c := by
  refine ⟨UInt8.ofNat c.toNat, if_pos h, ?_⟩
  have hbyte : (UInt8.ofNat c.toNat).toNat = c.toNat := by
    rw [UInt8.toNat_ofNat']
    exact Nat.mod_eq_of_lt (by omega)
  rw [hbyte, Char.ofNat_toNat]

/-- Such a character is its own first byte. -/
theorem leadByte_of_le {c : Char} (h : c.toNat ≤ 127) : leadByte c = c := by
  obtain ⟨b, hbytes, hb⟩ := utf8EncodeChar_of_le h
  rw [leadByte, hbytes, List.headD_cons, hb]

/-- Two words of as many characters that stand at one place are the same. -/
theorem StandsAt.unique {text : String} {position : Nat} {word word' : List Char}
    (h : StandsAt text position (String.ofList word))
    (h' : StandsAt text position (String.ofList word')) (hlen : word.length = word'.length) :
    word = word' := by
  obtain ⟨rest, hremains⟩ := standsAt_iff_remains.mp h
  obtain ⟨rest', hremains'⟩ := standsAt_iff_remains.mp h'
  rw [String.toList_ofList] at hremains hremains'
  exact (List.append_inj (hremains.unique hremains') hlen).1

theorem scan_error {text : String} {e : SyntaxError} (h : scan text = .error e) :
    Misread text e :=
  scanFrom_error (remains_whole text) h

/-- **What a scan reports stands where it says**, at a character boundary, with one exception: an
    escape of a character that is not its own first byte is shown with that byte.  Then what is
    shown does not stand there, and the character is beyond the first 128. -/
theorem scan_error_stands {text found : String} {expected : Expectation} {position : Nat}
    (h : scan text = .error (.unexpected expected found position)) :
    String.Pos.Raw.IsValid text ⟨position⟩
      ∧ (StandsAt text position found
        ∨ ∃ c : Char, expected = .escape ∧ StandsAt text position (String.ofList ['\\', c])
          ∧ 127 < c.toNat ∧ leadByte c ≠ c ∧ found = String.ofList ['\\', leadByte c]
          ∧ ¬StandsAt text position found) := by
  cases scan_error h with
  | sign stands => exact ⟨stands.isValid, .inl stands⟩
  | @escape c _ _ stands =>
      refine ⟨stands.isValid, ?_⟩
      by_cases hlead : leadByte c = c
      · rw [hlead]
        exact .inl stands
      · have hc : 127 < c.toNat := by
          by_contra hle
          exact hlead (leadByte_of_le (by omega))
        refine .inr ⟨c, rfl, stands, hc, hlead, rfl, fun hfound => ?_⟩
        have hsame := hfound.unique stands rfl
        exact hlead (List.cons.inj (List.cons.inj hsame).2).1

theorem scan_error_stands_ampersand :
    scan "'ä' & b" = .error (.unexpected .andSign "&" 5)
      ∧ String.Pos.Raw.IsValid "'ä' & b" ⟨5⟩
      ∧ (StandsAt "'ä' & b" 5 "&"
        ∨ ∃ c : Char, Expectation.andSign = .escape
          ∧ StandsAt "'ä' & b" 5 (String.ofList ['\\', c]) ∧ 127 < c.toNat ∧ leadByte c ≠ c
          ∧ "&" = String.ofList ['\\', leadByte c] ∧ ¬StandsAt "'ä' & b" 5 "&") := by
  have h : scan "'ä' & b" = .error (.unexpected .andSign "&" 5) := by
    decide +kernel
  exact ⟨h, scan_error_stands h⟩

/-- An escaped `é` is reported as `Ã`, which does not stand in the text: what stands at that place
    is another word of two characters. -/
theorem scan_error_elsewhere :
    scan "\"\\é\"" = .error (.unexpected .escape "\\Ã" 1)
      ∧ ¬StandsAt "\"\\é\"" 1 "\\Ã" := by
  refine ⟨by decide +kernel, fun hfound => ?_⟩
  have hfound : StandsAt "\"\\é\"" 1 (String.ofList ['\\', 'Ã']) := hfound
  have hstands : StandsAt "\"\\é\"" 1 (String.ofList ['\\', 'é']) := ⟨"\"", "\"", rfl, rfl⟩
  have hsame := hfound.unique hstands rfl
  exact absurd hsame (by decide)

end Verdict.Condition
