/-
  Bytes — the walk over the bytes of a text is the scan over its characters.

  1. **Encoding** — a character up to 127 is one byte, its code; every byte of any other character
     is above 127 (`of_mem_utf8EncodeChar`).  So a test for one-byte characters never succeeds
     inside a character, and answers at its first byte as it answers for the character.

  2. **Readers** — each reader of the walk does with the bytes of some characters what the reader of
     the scan does with the characters, and stops behind the bytes of what that one has taken.

  3. **Agreement** — so the walk is the scan, and it stops behind the last byte
     (`Bytewise.scan_eq`).  It is `some`: NO cut fails, for any text.
-/
import Verdict.Condition.Bytewise
import Verdict.Proofs.Condition.Places

namespace Verdict.Condition.Bytewise

open Decimal (isDigit)

/-! ## Characters and their bytes -/

/-- The bytes of characters. -/
def encode (cs : List Char) : List UInt8 := cs.flatMap String.utf8EncodeChar

theorem toByteArray_eq (text : String) : text.toByteArray.data.toList = encode text.toList := by
  rw [← String.utf8Encode_toList, List.utf8Encode, List.toList_data_toByteArray, encode]

theorem length_encode (cs : List Char) : (encode cs).length = String.utf8Len cs := by
  induction cs with
  | nil => rfl
  | cons c cs ih =>
      rw [encode, List.flatMap_cons, List.length_append, ← encode, ih, String.length_utf8EncodeChar,
        String.utf8Len_cons, Nat.add_comm]

theorem encode_cons (c : Char) (cs : List Char) :
    encode (c :: cs) = String.utf8EncodeChar c ++ encode cs := List.flatMap_cons

theorem toNat_byteChar (b : UInt8) : (byteChar b).toNat = b.toNat := by
  have hb : b.toNat < 256 := b.toNat_lt
  have hvalid : b.toNat.isValidChar := .inl (by omega)
  rw [byteChar, Char.ofNat, dif_pos hvalid]
  rfl

/-- **Each byte of a character** is the character, or above all characters of one byte.  The first
    case is that of a character of one byte; in the second the encoding is opened once, for two,
    three and four bytes, and every byte of each is above 127 by its own bits. -/
theorem of_mem_utf8EncodeChar {c : Char} {b : UInt8} (h : b ∈ String.utf8EncodeChar c) :
    byteChar b = c ∨ 127 < c.toNat ∧ 127 < (byteChar b).toNat := by
  by_cases hc : c.toNat ≤ 127
  · obtain ⟨b', hbytes, hb'⟩ := utf8EncodeChar_of_le hc
    rw [hbytes, List.mem_singleton] at h
    rw [h]
    exact .inl hb'
  · -- Several bytes, of which none is the code of a character below 128.
    have hval : ¬c.val.toNat ≤ 127 := hc
    refine .inr ⟨Nat.lt_of_not_le hc, ?_⟩
    rw [toNat_byteChar]
    simp only [String.utf8EncodeChar, if_neg hval] at h
    -- A lead byte is at least 192, every further byte at least 128.
    split at h
    · simp only [List.mem_cons, List.not_mem_nil, or_false] at h
      rcases h with rfl | rfl <;> rw [UInt8.toNat_ofNat'] <;> omega
    · split at h
      · simp only [List.mem_cons, List.not_mem_nil, or_false] at h
        rcases h with rfl | rfl | rfl <;> rw [UInt8.toNat_ofNat'] <;> omega
      · simp only [List.mem_cons, List.not_mem_nil, or_false] at h
        rcases h with rfl | rfl | rfl | rfl <;> rw [UInt8.toNat_ofNat'] <;> omega

/-- Is a test passed by characters of one byte only? -/
def OneByte (p : Char → Bool) : Prop := ∀ c, p c = true → c.toNat ≤ 127

/-- A character has a first byte. -/
theorem utf8EncodeChar_eq_cons (c : Char) : ∃ b bs, String.utf8EncodeChar c = b :: bs := by
  refine List.exists_cons_of_length_pos ?_
  rw [String.length_utf8EncodeChar]
  exact c.utf8Size_pos

theorem encode_eq_cons (c : Char) (cs : List Char) : ∃ b bs, encode (c :: cs) = b :: bs := by
  obtain ⟨b, bs, hbytes⟩ := utf8EncodeChar_eq_cons c
  rw [encode_cons, hbytes]
  exact ⟨b, bs ++ encode cs, rfl⟩

/-- The first byte of characters is the first one of the first character. -/
theorem utf8EncodeChar_of_encode_cons {c : Char} {cs : List Char} {b : UInt8} {bs : List UInt8}
    (h : encode (c :: cs) = b :: bs) : ∃ bs', String.utf8EncodeChar c = b :: bs' := by
  obtain ⟨b', bs', hbytes⟩ := utf8EncodeChar_eq_cons c
  rw [encode_cons, hbytes, List.cons_append] at h
  obtain ⟨rfl, _⟩ := List.cons.inj h
  exact ⟨bs', hbytes⟩

theorem mem_of_encode_cons {c : Char} {cs : List Char} {b : UInt8} {bs : List UInt8}
    (h : encode (c :: cs) = b :: bs) : b ∈ String.utf8EncodeChar c := by
  obtain ⟨bs', hbytes⟩ := utf8EncodeChar_of_encode_cons h
  rw [hbytes]
  exact List.mem_cons_self

theorem leadByte_eq {c : Char} {cs : List Char} {b : UInt8} {bs : List UInt8}
    (h : encode (c :: cs) = b :: bs) : leadByte c = byteChar b := by
  obtain ⟨bs', hbytes⟩ := utf8EncodeChar_of_encode_cons h
  rw [leadByte, hbytes, List.headD_cons, byteChar]

section

variable {p : Char → Bool} {c : Char} {b : UInt8}

/-- **A test for one-byte characters** answers at each byte as it answers for the character.  All
    tests of the walk are such tests; this is the one reason why it need not look at characters. -/
theorem OneByte.eq (hp : OneByte p) (hb : b ∈ String.utf8EncodeChar c) : p (byteChar b) = p c := by
  have hfails : ∀ {d : Char}, 127 < d.toNat → p d = false := by
    intro d hd
    refine Bool.eq_false_iff.mpr fun htrue => ?_
    have hle := hp d htrue
    omega
  rcases of_mem_utf8EncodeChar hb with hsame | ⟨hc, hbyte⟩
  · rw [hsame]
  · rw [hfails hc, hfails hbyte]

theorem firstIs_encode (hp : OneByte p) (cs : List Char) :
    firstIs p (encode cs) = cs.head?.any p := by
  cases cs with
  | nil => rfl
  | cons c cs =>
      obtain ⟨b, bs, hbytes⟩ := encode_eq_cons c cs
      rw [hbytes]
      exact hp.eq (mem_of_encode_cons hbytes)

/-- Bytes are taken as far as their characters are: no run ends inside a character. -/
theorem takeWhile_encode (hp : OneByte p) (cs : List Char) :
    (encode cs).takeWhile (fun b => p (byteChar b)) = encode (cs.takeWhile p) := by
  induction cs with
  | nil => rfl
  | cons c cs ih =>
      cases hc : p c with
      | true =>
          have hbytes : ∀ b ∈ String.utf8EncodeChar c, p (byteChar b) = true :=
            fun b hb => (hp.eq hb).trans hc
          rw [encode_cons, List.takeWhile_append_of_pos hbytes, ih, List.takeWhile_cons_of_pos hc,
            encode_cons]
      | false =>
          obtain ⟨b, bs, hbytes⟩ := encode_eq_cons c cs
          have hb : p (byteChar b) = false := (hp.eq (mem_of_encode_cons hbytes)).trans hc
          rw [hbytes, List.takeWhile_cons, List.takeWhile_cons, hb, hc]
          rfl

theorem runLength_encode (hp : OneByte p) (cs : List Char) :
    runLength p (encode cs) = String.utf8Len (cs.takeWhile p) := by
  rw [runLength, takeWhile_encode hp, length_encode]

end

theorem encode_append (cs cs' : List Char) : encode (cs ++ cs') = encode cs ++ encode cs' :=
  List.flatMap_append

/-- Behind the bytes of a word are the bytes of what remains. -/
theorem drop_encode (word rest : List Char) :
    (encode (word ++ rest)).drop (String.utf8Len word) = encode rest := by
  rw [encode_append, ← length_encode, List.drop_left]

theorem drop_encode_takeWhile (p : Char → Bool) (cs : List Char) :
    (encode cs).drop (String.utf8Len (cs.takeWhile p)) = encode (cs.dropWhile p) := by
  have hcs : encode cs = encode (cs.takeWhile p ++ cs.dropWhile p) := by
    rw [List.takeWhile_append_dropWhile]
  rw [hcs, drop_encode]

theorem oneByte_isDigit : OneByte isDigit := fun _ => toNat_le_of_isDigit

theorem oneByte_continuesName : OneByte continuesName := fun _ => toNat_le_of_continuesName

theorem oneByte_isSpace : OneByte isSpace := fun _ => toNat_le_of_isSpace

theorem oneByte_beq {c : Char} (hc : c.toNat ≤ 127) : OneByte (· == c) := by
  intro d hd
  rw [beq_iff_eq] at hd
  rw [hd]
  exact hc

/-! ## Cuts -/

/-- **What stands between two places is cut out**: the cut does not fail.  Where the readers are,
    `Remains` says what is in front and what behind, so both ends are boundaries. -/
theorem slice?_eq {text : String} {start : Nat} {word rest : List Char}
    (h : Remains text start (word ++ rest)) :
    slice? text start (start + String.utf8Len word) = some (String.ofList word) := by
  have hstart : String.Pos.Raw.IsValid text ⟨start⟩ := (h.standsAt word).isValid
  have hstop : String.Pos.Raw.IsValid text ⟨start + String.utf8Len word⟩ :=
    ((h.append word).standsAt []).isValid
  obtain ⟨before, htext, hbefore⟩ := h
  have hwhole : String.ofList (before ++ word ++ rest) = text := by
    rw [List.append_assoc, ← htext, String.ofList_toList]
  rw [slice?, if_pos ⟨Nat.le_add_right _ _, String.Pos.Raw.isValid_eq_true_iff.mpr hstart,
    String.Pos.Raw.isValid_eq_true_iff.mpr hstop⟩, ← hbefore, ← hwhole, String.extract_of_valid]

/-- A cut inside a character fails. -/
example : slice? "é" 0 1 = none := by decide

/-! ## Strings -/

/-- What the walk keeps of a lexeme that begins at a place. -/
def Piece.of (start : Nat) (l : Lexeme) : Piece := ⟨l.token, start + l.width⟩

section

variable {text done : String} {quote : Char} {opened segment : Nat}

/-- Bytes that are neither the quote nor a backslash are stepped over. -/
theorem readString_skip {front : List UInt8}
    (hfront : ∀ b ∈ front, byteChar b ≠ quote ∧ byteChar b ≠ '\\') (offset : Nat)
    (bs : List UInt8) :
    readString text quote opened segment offset done (front ++ bs)
      = readString text quote opened segment (offset + front.length) done bs := by
  induction front generalizing offset with
  | nil => rfl
  | cons b front ih =>
      obtain ⟨⟨hquote, hbackslash⟩, hfront⟩ := List.forall_mem_cons.mp hfront
      rw [List.cons_append, readString, if_neg hquote, if_neg hbackslash, ih hfront,
        List.length_cons, Nat.add_assoc, Nat.add_comm 1]

/-- A character of one byte in front: its byte, and the other bytes. -/
theorem encode_cons_of_le {c : Char} (hc : c.toNat ≤ 127) (cs : List Char) :
    ∃ b, encode (c :: cs) = b :: encode cs ∧ byteChar b = c := by
  obtain ⟨b, hbytes, hb⟩ := utf8EncodeChar_of_le hc
  refine ⟨b, ?_, hb⟩
  rw [encode_cons, hbytes, List.singleton_append]

/-- No byte of a character is a one-byte character other than it. -/
theorem byteChar_ne {c d : Char} (hd : d.toNat ≤ 127) (h : c ≠ d) {b : UInt8}
    (hb : b ∈ String.utf8EncodeChar c) : byteChar b ≠ d := by
  intro hbd
  have htest := (oneByte_beq hd).eq hb
  rw [hbd, beq_self_eq_true, eq_comm, beq_iff_eq] at htest
  exact h htest

theorem backslash_le : '\\'.toNat ≤ 127 := by decide

/-- No byte of a character is escaped that is not escaped itself. -/
theorem unescaped?_byteChar {c : Char} (h : unescaped? c = none) {b : UInt8}
    (hb : b ∈ String.utf8EncodeChar c) : unescaped? (byteChar b) = none := by
  rcases of_mem_utf8EncodeChar hb with hsame | ⟨_, habove⟩
  · rw [hsame]
    exact h
  · cases hx : unescaped? (byteChar b) with
    | none => rfl
    | some x =>
        have hle := toNat_le_of_unescaped? hx
        omega

/-- Both readers stand inside a string, at the characters `cs`.  The walk has stepped over the FRONT
    since its last cut; the reader of the characters holds what it has `read`. -/
structure InString (text : String) (segment offset : Nat) (done : String)
    (front read cs : List Char) : Prop where
  /-- From the last cut on remain the front and the characters that are still to be read. -/
  remains : Remains text segment (front ++ cs)
  /-- The bytes that are still to be read begin behind the front. -/
  reached : segment + String.utf8Len front = offset
  /-- What was cut out before, with the front, is what the reader of the characters holds. -/
  held : done ++ String.ofList front = String.ofList read.reverse

namespace InString

variable {offset : Nat} {front read cs : List Char}

/-- Behind its quote nothing of a string has been stepped over. -/
theorem start (h : Remains text segment cs) : InString text segment segment "" [] [] cs :=
  ⟨h, rfl, rfl⟩

/-- The front can be cut out at any time. -/
theorem front_eq (h : InString text segment offset done front read cs) :
    slice? text segment offset = some (String.ofList front) := by
  rw [← h.reached]
  exact slice?_eq h.remains

/-- Behind an escape begins a new part, of which nothing has been stepped over. -/
theorem escape {e x : Char} (hx : unescaped? e = some x)
    (h : InString text segment offset done front read ('\\' :: e :: cs)) :
    InString text (offset + 2) (offset + 2) (done ++ String.ofList front ++ String.ofList [x]) []
      (x :: read) cs where
  remains := by
    rw [← h.reached, ← utf8Len_escape hx]
    exact (h.remains.append front).append ['\\', e]
  reached := rfl
  held := by
    rw [h.held, List.reverse_cons, String.ofList_append]
    exact String.append_empty

/-- Any other character lengthens the front, by all its bytes. -/
theorem step {c : Char} (h : InString text segment offset done front read (c :: cs)) :
    InString text segment (offset + c.utf8Size) done (front ++ [c]) (c :: read) cs where
  remains := by
    rw [List.append_assoc]
    exact h.remains
  reached := by
    rw [String.utf8Len_append, ← Nat.add_assoc, h.reached, utf8Len_singleton]
  held := by
    rw [String.ofList_append, ← String.append_assoc, h.held, List.reverse_cons,
      String.ofList_append]

end InString

/-- **A string is read from its bytes** as from its characters, and all its parts are cut out.  The
    induction is on the reader of the characters, with `InString` for its invariant. -/
theorem readString_encode (hquote : quote.toNat ≤ 127) {offset : Nat} {front read cs : List Char}
    (hopened : opened ≤ offset) (h : InString text segment offset done front read cs) :
    readString text quote opened segment offset done (encode cs)
      = some ((Condition.readString quote opened offset read cs).map (Piece.of opened)) := by
  fun_induction Condition.readString quote opened offset read cs
    generalizing segment done front with
  | case1 =>
      -- The text ends inside the string.
      rfl
  | case2 offset read cs =>
      -- The closing quote: the front is the last part.
      obtain ⟨b, hbytes, hb⟩ := encode_cons_of_le hquote cs
      have hstop : offset + 1 = opened + (offset + 1 - opened) := by omega
      rw [hbytes, readString, if_pos hb, h.front_eq, Option.map_some, h.held]
      show _ = some (Except.ok (Piece.mk _ (opened + (offset + 1 - opened))))
      rw [← hstop]
  | case3 offset read hne =>
      -- A backslash, and nothing behind it.
      obtain ⟨b, hbytes, hb⟩ := encode_cons_of_le backslash_le []
      rw [hbytes, readString, hb, if_neg hne, if_pos rfl, h.front_eq]
      rfl
  | case4 offset read e rest x hx hne ih =>
      -- An escape: the front is cut out, and what is escaped is appended to it.
      obtain ⟨b, hbytes, hb⟩ := encode_cons_of_le backslash_le (e :: rest)
      obtain ⟨b', hbytes', hb'⟩ := encode_cons_of_le (toNat_le_of_unescaped? hx) rest
      rw [hbytes, hbytes', readString, hb, if_neg hne, if_pos rfl, h.front_eq]
      dsimp only
      rw [hb', hx]
      exact ih (by omega) (h.escape hx)
  | case5 offset read e rest hx hne =>
      -- What cannot be escaped is reported by its first byte, here as there.
      obtain ⟨b, hbytes, hb⟩ := encode_cons_of_le backslash_le (e :: rest)
      obtain ⟨b', bs', hbytes'⟩ := encode_eq_cons e rest
      have hlead : leadByte e = byteChar b' := leadByte_eq hbytes'
      have hx' : unescaped? (byteChar b') = none :=
        unescaped?_byteChar hx (mem_of_encode_cons hbytes')
      rw [hbytes, hbytes', readString, hb, if_neg hne, if_pos rfl, h.front_eq]
      dsimp only
      rw [hx', hlead]
      rfl
  | case6 offset read c cs hne hne' ih =>
      -- The character may have several bytes; neither of the two signs is among them.
      have hskip : ∀ b ∈ String.utf8EncodeChar c, byteChar b ≠ quote ∧ byteChar b ≠ '\\' :=
        fun b hb => ⟨byteChar_ne hquote hne hb, byteChar_ne backslash_le hne' hb⟩
      rw [encode_cons, readString_skip hskip, String.length_utf8EncodeChar]
      exact ih (by omega) h.step

end

/-! ## Numbers, words and signs -/

theorem runLength_eq_length {p : Char → Bool} (hp : OneByte p) (cs : List Char) :
    runLength p (encode cs) = (cs.takeWhile p).length := by
  rw [runLength_encode hp]
  exact utf8Len_eq_length fun c hc => hp c (List.mem_takeWhile_imp hc)

/-- The bytes tell whether a fraction follows: a point, and a digit behind it. -/
theorem fraction_encode (cs : List Char) :
    (firstIs (· == '.') (encode cs) && firstIs isDigit (encode cs).tail) = true
      ↔ ∃ d rest, cs = '.' :: d :: rest ∧ isDigit d = true := by
  have hpoint : OneByte (· == '.') := oneByte_beq (by decide)
  have hdigit : ∀ rest, firstIs isDigit (encode ('.' :: rest)).tail = rest.head?.any isDigit :=
    fun rest => firstIs_encode oneByte_isDigit rest
  cases cs with
  | nil => exact ⟨nofun, nofun⟩
  | cons c cs =>
      rw [firstIs_encode hpoint, Bool.and_eq_true, List.head?_cons, Option.any_some, beq_iff_eq]
      constructor
      · rintro ⟨rfl, h⟩
        rw [hdigit] at h
        cases cs with
        | nil => cases h
        | cons d rest => exact ⟨d, rest, rfl, h⟩
      · rintro ⟨d, rest, heq, hd⟩
        obtain ⟨rfl, rfl⟩ := List.cons.inj heq
        refine ⟨rfl, ?_⟩
        rw [hdigit]
        exact hd

/-- A number ends in the bytes where it ends in the characters.  The walk adds up two runs of
    digits; the scan builds the word and tells its width. -/
theorem numberStop_encode (start : Nat) (c : Char) (cs : List Char) :
    numberStop start (encode cs) = start + (readNumber c cs).width := by
  have hbehind : (encode cs).drop (runLength isDigit (encode cs))
      = encode (cs.dropWhile isDigit) := by
    rw [runLength_encode oneByte_isDigit, drop_encode_takeWhile]
  unfold numberStop readNumber
  dsimp only
  rw [hbehind, runLength_eq_length oneByte_isDigit]
  split
  · -- The point and the digits behind it belong to the number.
    rename_i hfraction
    obtain ⟨d, rest, hrest, hd⟩ := (fraction_encode _).mp hfraction
    have htail : (encode ('.' :: d :: rest)).tail = encode (d :: rest) := rfl
    rw [hrest, htail, runLength_eq_length oneByte_isDigit, List.takeWhile_cons_of_pos hd]
    show _ = start + (if isDigit d = true then _ else _ : Lexeme).width
    rw [if_pos hd]
    simp only [List.length_append, List.length_cons]
    omega
  · rename_i hwhole
    -- No fraction follows: a point may, but then no digit behind it.
    split
    · rename_i d rest hrest
      have hd : ¬isDigit d = true := fun hd =>
        hwhole ((fraction_encode _).mpr ⟨d, rest, hrest, hd⟩)
      rw [if_neg hd]
      simp only [List.length_cons]
      omega
    · simp only [List.length_cons]
      omega

/-- The characters that a sign begins with. -/
def signs : List Char := ['(', ')', ',', '.', '!', '=', '<', '>', '&', '|']

theorem toNat_le_of_mem_signs {c : Char} (h : c ∈ signs) : c.toNat ≤ 127 := by
  have hall : signs.all (fun d => d.toNat ≤ 127) = true := rfl
  exact of_decide_eq_true (List.all_eq_true.mp hall c h)

section

variable {text : String} {start : Nat} {c : Char} {cs : List Char} {b : UInt8} {bs : List UInt8}

theorem lexeme_eq_longLexeme (hb : byteChar b ∉ signs) :
    lexeme text start b bs = longLexeme text start (byteChar b) bs := by
  unfold lexeme
  split
  case h_11 => rfl
  all_goals
    rename_i heq
    rw [heq] at hb
    exact absurd (by decide) hb

/-- A character of several bytes begins nothing: no string, no number and no word. -/
theorem begins_nothing (hc : 127 < c.toNat) :
    ¬(c = '\x27' ∨ c = '"') ∧ ¬(c = '-' ∨ isDigit c = true) ∧ ¬startsName c = true :=
  ⟨fun h => Nat.not_le.mpr hc (toNat_le_of_quote h),
    fun h => Nat.not_le.mpr hc (toNat_le_of_number h),
    fun h => Nat.not_le.mpr hc (toNat_le_of_startsName h)⟩

/-- What begins nothing is shown as the whole character, which is cut out of the text.  The cut
    reaches to the end of the text, so it fails only if the walk stood inside a character. -/
theorem stray_eq (h : Remains text start (c :: cs)) :
    ((slice? text start text.utf8ByteSize).map fun rest => (Except.error
        (.unexpected .token (String.ofList [rest.toList.headD '?']) start) :
          Except SyntaxError Piece))
      = some (.error (.unexpected .token (String.ofList [c]) start)) := by
  have hwhole : Remains text start ((c :: cs) ++ []) := by
    rw [List.append_nil]
    exact h
  rw [← h.position_eq, slice?_eq hwhole, Option.map_some, String.toList_ofList, List.headD_cons]

theorem lexeme_of_lt (hc : 127 < c.toNat) :
    Condition.lexeme start c cs = .error (.unexpected .token (String.ofList [c]) start) := by
  obtain ⟨hquote, hnumber, hword⟩ := begins_nothing hc
  unfold Condition.lexeme
  split
  case h_17 => rw [if_neg hquote, if_neg hnumber, if_neg hword]
  all_goals exact absurd hc (by decide)

/-- A string, a number or a word is read from its bytes.  A string has its own walk; a number and a
    word are one cut each, from the place where they begin to where the bytes say that they end. -/
theorem longLexeme_encode (hc : c.toNat ≤ 127) (h : Remains text start (c :: cs)) :
    longLexeme text start c (encode cs) = some (Except.map (Piece.of start)
      (if c = '\x27' ∨ c = '"' then Condition.readString c start (start + 1) [] cs
        else if c = '-' ∨ isDigit c then .ok (readNumber c cs)
        else if startsName c then .ok (readWord c cs)
        else .error (.unexpected .token (String.ofList [c]) start))) := by
  unfold longLexeme
  split
  · -- A string begins behind its quote, with nothing stepped over.
    have hinside : Remains text (start + 1) cs := by
      rw [← utf8Size_eq_one hc]
      exact h.tail
    exact readString_encode hc (Nat.le_succ start) (.start hinside)
  · split
    · -- A number, up to its last digit.
      obtain ⟨word, htakes, htoken⟩ := readNumber_takes hc cs
      rw [htakes.front] at h
      dsimp only
      rw [numberStop_encode start c, ← htakes.width, slice?_eq h, Option.map_some, htakes.width,
        ← htoken]
      rfl
    · split
      · -- A word, with everything that continues it.
        rename_i hword
        obtain ⟨word, htakes, htoken⟩ := readWord_takes hword cs
        have hstop : start + 1 + runLength continuesName (encode cs)
            = start + (readWord c cs).width := by
          rw [runLength_eq_length oneByte_continuesName]
          simp only [readWord, List.length_cons]
          omega
        rw [htakes.front] at h
        dsimp only
        rw [hstop, ← htakes.width, slice?_eq h, Option.map_some, htakes.width, ← htoken]
        rfl
      · exact stray_eq h

/-- A sign of two characters is seen in the bytes. -/
theorem pair_eq {β : Type} {d : Char} (hd : d.toNat ≤ 127) {rest : List Char} {yes no : β} :
    (if firstIs (· == d) (encode (d :: rest)) then yes else no) = yes := by
  refine if_pos ?_
  rw [firstIs_encode (oneByte_beq hd), List.head?_cons, Option.any_some, beq_self_eq_true]

/-- A sign that could be the first of two, but is not, is seen to stand alone. -/
theorem single_eq {β : Type} {d : Char} (hd : d.toNat ≤ 127) {yes no : β}
    (h : ∀ rest, cs = d :: rest → False) :
    (if firstIs (· == d) (encode cs) then yes else no) = no := by
  refine if_neg fun hfirst => ?_
  rw [firstIs_encode (oneByte_beq hd)] at hfirst
  cases cs with
  | nil => cases hfirst
  | cons c cs =>
      rw [List.head?_cons, Option.any_some, beq_iff_eq] at hfirst
      exact h cs (by rw [hfirst])

/-- **A token is read from its bytes** as from its characters.  The walk looks at the first byte of
    a character only.  If it is the whole character, both readers go through the same cases; if not,
    it begins nothing, and neither does the character. -/
theorem lexeme_encode (h : Remains text start (c :: cs)) (hbytes : encode (c :: cs) = b :: bs) :
    lexeme text start b bs = some ((Condition.lexeme start c cs).map (Piece.of start)) := by
  obtain hc | hc := Nat.lt_or_ge 127 c.toNat
  · have habove : 127 < (byteChar b).toNat := by
      rcases of_mem_utf8EncodeChar (mem_of_encode_cons hbytes) with hsame | ⟨_, habove⟩
      · rw [hsame]
        exact hc
      · exact habove
    -- Its first byte begins nothing either, and what is shown is not the byte.
    have hsigns : byteChar b ∉ signs := fun hmem =>
      Nat.not_le.mpr habove (toNat_le_of_mem_signs hmem)
    obtain ⟨hquote, hnumber, hword⟩ := begins_nothing habove
    rw [lexeme_eq_longLexeme hsigns, lexeme_of_lt hc, longLexeme, if_neg hquote, if_neg hnumber,
      if_neg hword]
    exact stray_eq h
  · -- One byte: a case for each sign, and one for all that is longer.
    obtain ⟨b', hbytes', hb⟩ := encode_cons_of_le hc cs
    obtain ⟨rfl, rfl⟩ := List.cons.inj (hbytes.symm.trans hbytes')
    unfold Condition.lexeme
    split
    case h_17 =>
      have hsigns : byteChar b ∉ signs := by
        rw [hb]
        simp only [signs, List.mem_cons, List.not_mem_nil, or_false]
        grind
      rw [lexeme_eq_longLexeme hsigns, hb]
      exact longLexeme_encode hc h
    all_goals
      unfold lexeme
      rw [hb]
      first
        | rfl
        | exact pair_eq (by decide)
        | exact single_eq (by decide) (by assumption)

/-- Behind a token the walk goes on with the bytes of what the token leaves. -/
theorem drop_lexeme {l : Lexeme} (hl : Condition.lexeme start c cs = .ok l)
    (hbytes : encode (c :: cs) = b :: bs) :
    bs.drop (start + l.width - (start + 1)) = encode l.rest := by
  obtain ⟨word, htakes⟩ := lexeme_takes hl
  have hpos := Lexeme.width_pos hl
  have hsucc : l.width = start + l.width - (start + 1) + 1 := by omega
  have hdrop := drop_encode word l.rest
  rw [← htakes.front, hbytes, htakes.width, hsucc, List.drop_succ_cons] at hdrop
  exact hdrop

/-- **The tokens are read from the bytes** as from the characters.  The induction is on the scan;
    what is carried is that both stand at the same place, with the bytes of the same characters
    before them (`Remains`), which blanks and tokens preserve. -/
theorem scanFrom_encode {done : List Placed} (h : Remains text start cs) :
    scanFrom text start done (encode cs)
      = some ((Condition.scanFrom start done cs).map (·, text.utf8ByteSize)) := by
  fun_induction Condition.scanFrom start done cs with
  | case1 start done =>
      rw [← h.position_eq]
      show scanFrom text start done [] = _
      rw [scanFrom]
      rfl
  | case2 start done c cs hc ih =>
      obtain ⟨b, hbytes, hb⟩ := encode_cons_of_le (toNat_le_of_isSpace hc) cs
      rw [hbytes, scanFrom, hb, if_pos hc]
      exact ih (h.space hc)
  | case3 start done c cs hc e he =>
      obtain ⟨b, bs, hbytes⟩ := encode_eq_cons c cs
      have hb : ¬isSpace (byteChar b) = true := by
        rw [oneByte_isSpace.eq (mem_of_encode_cons hbytes)]
        exact hc
      rw [hbytes, scanFrom, if_neg hb, lexeme_encode h hbytes, he]
      rfl
  | case4 start done c cs hc l hl ih =>
      obtain ⟨b, bs, hbytes⟩ := encode_eq_cons c cs
      have hb : ¬isSpace (byteChar b) = true := by
        rw [oneByte_isSpace.eq (mem_of_encode_cons hbytes)]
        exact hc
      rw [hbytes, scanFrom, if_neg hb, lexeme_encode h hbytes, hl]
      show scanFrom text (start + l.width) _ (bs.drop (start + l.width - (start + 1))) = _
      rw [drop_lexeme hl hbytes]
      exact ih (h.lexeme hl)

end

/-- **The scan over the bytes of a text** cuts at boundaries only, reads the same tokens as the scan
    over its characters, and ends behind the last byte. -/
theorem scan_eq (text : String) :
    scan text = some ((Condition.scan text).map (·, text.utf8ByteSize)) := by
  rw [scan, toByteArray_eq]
  exact scanFrom_encode (remains_whole text)

/-- Two parts are cut out of this string, the first one around a character of two bytes. -/
example : scan "'ä\\n'" = some (.ok ([⟨.string "ä\n", 0⟩], 6)) := by decide +kernel

end Verdict.Condition.Bytewise
