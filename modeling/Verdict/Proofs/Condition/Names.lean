/-
  Names — the grammar of definitions and the grammar of conditions are ONE.

  The names that definitions may use are told by `isIdentifier`, which looks at the characters and
  at a list of words; the names of a condition are whatever the scan makes a name of.

  1. **Scanning** — a name is scanned as itself and nothing else, and every name among the tokens of
     a text is one (`scan_eq_name_iff`).

  2. **Paths** — the text of a path that can be parsed is read as the path
     (`FieldPath.Parsed.read_text`).  The names that stand in front of a row of tokens, with points
     between them, are always parsed, because the scan makes names of identifiers only.

  3. **Reading** — so every path that a condition spells is a field path, and no condition on fields
     is unknown.
-/
import Verdict.Proofs.Condition.Complaints
import Verdict.Proofs.Condition.Numerals
import Verdict.Proofs.Condition.RoundTrip

namespace Verdict

namespace Condition

/-! ## Scanning -/

/-- A word that is made a name is an identifier: the five words that are made tokens of their own
    are the reserved ones. -/
theorem isIdentifier_of_ofWord {word name : String} (hword : isWord word = true)
    (h : Token.ofWord word = .name name) : isIdentifier name = true := by
  have hkept : name = word ∧ reservedWords.contains word = false := by
    unfold Token.ofWord at h
    split at h
    case h_6 hand hor hnot htrue hfalse =>
      refine ⟨(Token.name.inj h).symm, Bool.eq_false_iff.mpr fun hmem => ?_⟩
      simp only [reservedWords, List.contains_iff_mem, List.mem_cons, List.not_mem_nil,
        or_false] at hmem
      rcases hmem with rfl | rfl | rfl | rfl | rfl
      · exact hand rfl
      · exact hor rfl
      · exact hnot rfl
      · exact htrue rfl
      · exact hfalse rfl
    all_goals cases h
  obtain ⟨rfl, hfree⟩ := hkept
  rw [isIdentifier, hword, hfree]
  rfl

/-- A word that is read is a word. -/
theorem isWord_takeWhile {c : Char} (hc : startsName c = true) (cs : List Char) :
    isWord (String.ofList (c :: cs.takeWhile continuesName)) = true := by
  rw [isWord, String.toList_ofList]
  dsimp only
  rw [hc, Bool.true_and, List.all_eq_true]
  exact fun d hd => List.mem_takeWhile_imp hd

/-- **Every name that is scanned** is an identifier. -/
theorem isIdentifier_of_lexeme {position : Nat} {c : Char} {cs : List Char} {l : Lexeme}
    (h : lexeme position c cs = .ok l) {name : String} (hname : l.token = .name name) :
    isIdentifier name = true := by
  rcases lexeme_cases h with ⟨_, -, hsign⟩ | ⟨-, hstring⟩ | ⟨hnumber, rfl⟩ | ⟨hword, rfl⟩
  · exact absurd hname (hsign.ne_name name)
  · obtain ⟨s, hs⟩ := readString_token hstring
    cases hs.symm.trans hname
  · obtain ⟨word, _, hraw⟩ := readNumber_takes (toNat_le_of_number hnumber) cs
    cases hraw.symm.trans hname
  · exact isIdentifier_of_ofWord (isWord_takeWhile hword cs) hname

/-- So are all names among the tokens of a text. -/
theorem isIdentifier_of_scan {text : String} {tokens : List Placed} (h : scan text = .ok tokens) :
    ∀ t ∈ tokens, ∀ name, t.token = .name name → isIdentifier name = true :=
  forall_of_scanFrom (P := fun t => ∀ name, t = .name name → isIdentifier name = true)
    (fun hl _ hname => isIdentifier_of_lexeme hl hname) h (List.forall_mem_nil _)

/-- **An identifier** is scanned as one name, and nothing else is.  In one direction the word goes
    on to the end of the text; in the other the name is among the tokens, and names are identifiers.
    -/
theorem scan_eq_name_iff (s : String) :
    isIdentifier s = true ↔ scan s = .ok [⟨.name s, 0⟩] := by
  constructor
  · intro h
    have hname : Token.ofWord s = .name s := ofWord_of_isIdentifier h
    obtain ⟨c, cs, hs, hc, hcs⟩ := eq_cons_of_isIdentifier h
    -- Nothing stops the word: it goes on to the end of the text.
    have hend : ∀ d ∈ ([] : List Char).head?, continuesName d = false :=
      fun d hd => by cases hd
    obtain ⟨htake, hdrop⟩ := span_append hcs hend
    rw [List.append_nil] at htake hdrop
    rw [scan, hs, scanFrom_lexeme (isSpace_of_startsName hc) (lexeme_word hc 0 cs), readWord,
      htake, hdrop, ← hs, String.ofList_toList, hname, scanFrom]
    rfl
  · intro h
    exact isIdentifier_of_scan h _ (List.mem_singleton_self _) s rfl

/-- The names of functions are names like any other. -/
example : scan "all" = .ok [⟨.name "all", 0⟩] := by decide +kernel

/-! ## Tokens of paths -/

/-- Every name of a path is one of its tokens. -/
theorem mem_of_pathOf {ts : List Token} {names : List String} (h : PathOf ts names) :
    names ≠ [] ∧ ∀ n ∈ names, Token.name n ∈ ts := by
  induction h with
  | @one ts name only =>
      refine ⟨List.cons_ne_nil _ _, List.forall_mem_singleton.mpr ?_⟩
      rw [only]
      exact List.mem_singleton_self _
  | @more ts us name names first _ ih =>
      refine ⟨List.cons_ne_nil _ _, List.forall_mem_cons.mpr ⟨?_, fun n hn => ?_⟩⟩
      · rw [first]
        exact List.mem_append_left _ (List.mem_singleton_self _)
      · exact List.mem_append_right _ (List.mem_cons_of_mem _ (ih.2 n hn))

end Condition

/-! ## Paths -/

namespace FieldPath

open Condition

/-- **The text of a path** that can be parsed is read as the path, which is the round trip for a
    condition of one leaf. -/
theorem Parsed.read_text {p : FieldPath} (h : p.Parsed)
    (hbytes : p.text.utf8ByteSize ≤ maxTextBytes) :
    FieldCondition.read p.text = .ok (.leaf (.truthy p)) := by
  have hspelled : Spelled FieldTest.resolver FieldTest.text (.leaf (.truthy p)) := by
    refine spelled _ fun t ht => ?_
    obtain rfl := List.mem_singleton.mp ht
    exact FieldTest.written _ h nofun
  exact read_written (hspelled.expression (Nat.zero_le _)) hbytes (Nat.zero_le _)
    (Nat.le_of_ble_eq_true rfl)

end FieldPath

namespace Condition

/-- A path among the tokens of a text is a field path: its names were scanned. -/
theorem parse_of_pathOf {text : String} {tokens ps : List Placed} (hscan : scan text = .ok tokens)
    (hps : ps <:+: tokens) {names : List String} (h : PathOf (ps.map Placed.token) names) :
    ∃ p, FieldPath.parse (".".intercalate names) = .ok p ∧ p.names = names := by
  obtain ⟨hne, hnames⟩ := mem_of_pathOf h
  refine FieldPath.parse_names hne fun n hn => ?_
  obtain ⟨t, ht, htoken⟩ := List.mem_map.mp (hnames n hn)
  exact isIdentifier_of_scan hscan t (hps.subset ht) n htoken

/-- **No condition on fields is unknown.**  The resolver refuses a path only if it cannot be parsed,
    and what a reader puts together from tokens always can. -/
theorem read_ne_unknownCondition (text name : String) (position : Nat) :
    FieldCondition.read text ≠ .error (.unknownCondition name position) := by
  intro hread
  cases refused_of_read hread with
  | misread scanned => cases scan_error scanned
  | complaint scanned about =>
      cases about with
      | @unknownField _ _ names row path unknown =>
          obtain ⟨p, hp, _⟩ := parse_of_pathOf scanned row path
          have hnone : (FieldPath.parse (".".intercalate names)).toOption.map FieldTest.truthy
              = none := unknown
          rw [hp] at hnone
          cases hnone
      | @unknownComparison _ _ names c s row path unknown =>
          obtain ⟨p, hp, _⟩ := parse_of_pathOf scanned row path
          have hnone : (FieldPath.parse (".".intercalate names)).toOption.map
              (FieldTest.compare · c s) = none := unknown
          rw [hp] at hnone
          cases hnone

end Condition

/-! ## One grammar -/

open Condition in
/-- **The two grammars agree.**  What is an identifier is scanned as one name, and nothing else is.
    A path that is parsed is its text, and its text, if texts may be as long, is read as that path
    alone; the names that the reader of conditions puts together from the tokens of a text are
    always parsed; and so no condition on fields is unknown. -/
theorem names_agree :
    (∀ s, isIdentifier s = true ↔ scan s = .ok [⟨.name s, 0⟩])
      ∧ (∀ t p, FieldPath.parse t = .ok p → p.text = t
          ∧ (t.utf8ByteSize ≤ 1024 * 1024 → FieldCondition.read t = .ok (.leaf (.truthy p))))
      ∧ (∀ (text : String) (before after : List Placed) (head : String) (position : Nat),
          scan text = .ok (before ++ ⟨.name head, position⟩ :: after) →
            ∀ (stop : Nat) (start : List Placed) (h : after.length < start.length)
              (names : List String) (rest : List Placed) (h' : rest.length < start.length),
              furtherNames stop [head] after h = .ok ⟨names, rest, h'⟩ →
                ∃ p, FieldPath.parse (".".intercalate names) = .ok p ∧ p.names = names)
      ∧ ∀ text name position,
          FieldCondition.read text ≠ .error (.unknownCondition name position) := by
  refine ⟨scan_eq_name_iff, fun t p hparse => ?_, ?_, read_ne_unknownCondition⟩
  · have htext := FieldPath.text_of_parse hparse
    refine ⟨htext, fun hbytes => ?_⟩
    rw [← htext] at hbytes ⊢
    exact FieldPath.Parsed.read_text ⟨t, hparse⟩ hbytes
  · intro text before after head position hscan stop start h names rest h' hread
    have hhead : PathOf [.name head] [head] := .one rfl
    obtain ⟨ps, rfl, hpath⟩ := furtherNames_derived hread hhead
    have hrow : ⟨.name head, position⟩ :: ps
        <:+: before ++ ⟨.name head, position⟩ :: (ps ++ rest) :=
      ⟨before, rest, by rw [List.append_assoc, List.cons_append]⟩
    exact parse_of_pathOf hscan hrow hpath

/-- A path of two names. -/
def ripeBasket : FieldPath := ⟨⟨"basket"⟩, [⟨"ripe_2"⟩]⟩

theorem names_agree_ripeBasket :
    FieldPath.parse "basket.ripe_2" = .ok ripeBasket ∧ ripeBasket.text = "basket.ripe_2"
      ∧ FieldCondition.read "basket.ripe_2" = .ok (.leaf (.truthy ripeBasket)) := by
  have hparsed : ripeBasket.Parsed := by decide
  have hparse : FieldPath.parse "basket.ripe_2" = .ok ripeBasket := hparsed.parse_text
  obtain ⟨_, hpaths, _⟩ := names_agree
  obtain ⟨htext, hread⟩ := hpaths _ _ hparse
  exact ⟨hparse, htext, hread (by decide)⟩

end Verdict
