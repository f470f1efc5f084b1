/-
  Names and field paths — which paths a text spells.

  A `FieldPath` holds any names, and tests are checked and evaluated with any of them.  Written and
  read again, in a condition or in a form, are only those that the parser yields.

  1. **Identifiers** — an identifier is not empty and has no point in it, because every character of
     it continues a name.

  2. **Parsing** — a text is parsed to a path exactly if it is the text of the path and all names
     along the path are identifiers (`FieldPath.parse_eq_ok_iff`).  Splitting a text at its points
     and putting the points back gives the text again, whatever it is; the other way round it takes
     names without points.

  3. **Parsed paths** — so a path can be read at all exactly if its names are identifiers, and then
     it is read from its own text (`FieldPath.Parsed.parse_text`).  Whether it can is decided by its
     names.
-/
import Verdict.Name

namespace Verdict

/-! ## Identifiers -/

section

variable {name : String}

/-- An identifier begins as a name does and goes on as one. -/
theorem eq_cons_of_isIdentifier (h : isIdentifier name = true) :
    ∃ c cs, name.toList = c :: cs ∧ startsName c = true ∧ ∀ d ∈ cs, continuesName d = true := by
  rw [isIdentifier, Bool.and_eq_true] at h
  obtain ⟨hword, _⟩ := h
  unfold isWord at hword
  cases hname : name.toList with
  | nil =>
      rw [hname] at hword
      cases hword
  | cons c cs =>
      rw [hname, Bool.and_eq_true, List.all_eq_true] at hword
      exact ⟨c, cs, rfl, hword⟩

/-- Every character of an identifier may stand inside one, the first one too. -/
theorem continuesName_of_mem (h : isIdentifier name = true) {c : Char} (hc : c ∈ name.toList) :
    continuesName c = true := by
  obtain ⟨first, others, hname, hstarts, hcontinues⟩ := eq_cons_of_isIdentifier h
  rw [hname] at hc
  rcases List.mem_cons.mp hc with rfl | hmem
  · rw [continuesName, hstarts, Bool.true_or]
  · exact hcontinues c hmem

theorem isEmpty_of_isIdentifier (h : isIdentifier name = true) : name.isEmpty = false := by
  refine Bool.eq_false_iff.mpr fun hempty => ?_
  rw [String.isEmpty_iff.mp hempty] at h
  cases h

end

/-! ## Parsing -/

namespace FieldPath

theorem names_mk (head : String) (rest : List String) :
    (⟨⟨head⟩, rest.map FieldName.mk⟩ : FieldPath).names = head :: rest := by
  show head :: (rest.map FieldName.mk).map FieldName.text = head :: rest
  rw [List.map_map]
  exact congrArg (head :: ·) (List.map_id rest)

/-- Any names, at least one, are the names along a path. -/
theorem exists_names_eq {names : List String} (h : names ≠ []) :
    ∃ p : FieldPath, p.names = names := by
  cases names with
  | nil => exact absurd rfl h
  | cons head rest => exact ⟨⟨⟨head⟩, rest.map FieldName.mk⟩, names_mk head rest⟩

/-- The pieces that a text is split into, with points between them, are the text again. -/
theorem intercalate_pieces (s : String) :
    ".".intercalate ((Text.splitAt '.' s.toList).map String.ofList) = s := by
  rw [← String.toList_inj, String.toList_intercalate, List.map_map]
  have hlists : (String.toList ∘ String.ofList) = id := funext fun _ => String.toList_ofList
  rw [hlists, List.map_id]
  exact Text.intercalate_splitAt '.' s.toList

/-- Names that are identifiers are the pieces of their text, as none of them holds a point. -/
theorem pieces_text {p : FieldPath} (h : ∀ n ∈ p.names, isIdentifier n = true) :
    (Text.splitAt '.' p.text.toList).map String.ofList = p.names := by
  have hsplit : Text.splitAt '.' p.text.toList = p.names.map String.toList := by
    rw [text, String.toList_intercalate]
    refine Text.splitAt_intercalate (List.cons_ne_nil _ _) fun piece hpiece hpoint => ?_
    obtain ⟨n, hn, rfl⟩ := List.mem_map.mp hpiece
    exact nomatch continuesName_of_mem (h n hn) hpoint
  rw [hsplit, List.map_map]
  have hstrings : (String.ofList ∘ String.toList) = id := funext fun _ => String.ofList_toList
  rw [hstrings, List.map_id]

/-- **Parsing** finds the path whose text it is given, and only if all its names are identifiers.

    So two paths that are parsed from one text are the same, and a path with a name that is no
    identifier, or with a point in a name, is parsed from no text at all. -/
theorem parse_eq_ok_iff {s : String} {p : FieldPath} :
    parse s = .ok p ↔ p.text = s ∧ ∀ n ∈ p.names, isIdentifier n = true := by
  constructor
  · -- The pieces of the text are the names, and have all been looked at.
    intro h
    unfold parse at h
    split at h
    · rename_i head rest hpieces
      split at h
      · rename_i hall
        cases h
        rw [text, names_mk]
        refine ⟨?_, List.all_eq_true.mp hall⟩
        rw [← hpieces]
        exact intercalate_pieces s
      · cases h
    · cases h
  · -- The names are the pieces of the text, since none of them holds a point.
    rintro ⟨rfl, hnames⟩
    have hpieces : (Text.splitAt '.' p.text.toList).map String.ofList
        = p.head.text :: p.restNames := pieces_text hnames
    have hrest : p.restNames.map FieldName.mk = p.rest := by
      rw [restNames, List.map_map]
      exact List.map_id p.rest
    rw [parse, hpieces]
    dsimp only
    rw [hrest]
    exact if_pos (List.all_eq_true.mpr hnames)

/-- **A path that is parsed is its text.** -/
theorem text_of_parse {s : String} {p : FieldPath} (h : parse s = .ok p) : p.text = s :=
  (parse_eq_ok_iff.mp h).1

/-! ## Parsed paths -/

/-- Is there a text that is parsed to the path? -/
def Parsed (p : FieldPath) : Prop := ∃ s, parse s = .ok p

theorem parsed_of_toOption {s : String} {p : FieldPath} (h : (parse s).toOption = some p) :
    p.Parsed := by
  cases hparse : parse s with
  | error e =>
      rw [hparse] at h
      cases h
  | ok q =>
      rw [hparse] at h
      cases h
      exact ⟨s, hparse⟩

/-- A path can be parsed exactly if all names along it are identifiers. -/
theorem parsed_iff {p : FieldPath} : p.Parsed ↔ ∀ n ∈ p.names, isIdentifier n = true := by
  constructor
  · rintro ⟨s, hs⟩
    exact (parse_eq_ok_iff.mp hs).2
  · intro h
    exact ⟨p.text, parse_eq_ok_iff.mpr ⟨rfl, h⟩⟩

instance (p : FieldPath) : Decidable p.Parsed := decidable_of_iff _ parsed_iff.symm

/-- **A parsed path** is parsed from its own text. -/
theorem Parsed.parse_text {p : FieldPath} (h : p.Parsed) : parse p.text = .ok p :=
  parse_eq_ok_iff.mpr ⟨rfl, parsed_iff.mp h⟩

/-- Names with points between them are parsed if they are identifiers. -/
theorem parse_names {names : List String} (hne : names ≠ [])
    (h : ∀ n ∈ names, isIdentifier n = true) :
    ∃ p, parse (".".intercalate names) = .ok p ∧ p.names = names := by
  obtain ⟨p, rfl⟩ := exists_names_eq hne
  exact ⟨p, parse_eq_ok_iff.mpr ⟨rfl, h⟩, rfl⟩

/-- A path that is put together from one name asks nothing of it. -/
example : (field "zone").Parsed ∧ ¬ (field "two words").Parsed := by decide

end FieldPath

end Verdict
