/-
  Violations — where a value departs from its declaration, and how that is spelled.

  1. **Places** — `Meets`: along one path a declaration is found in the type and a value in the
     value.  Below the root of a record the path goes through one of its fields (`meets_cons_iff`).

  2. **Specification** — `Violates t v e`: at the place of `e` the declaration and the value part,
     in the way that `e` says.  This is said with paths from the root and knows nothing of a walk.

  3. **Cases** — a violation of a record is at one of its fields or inside it
     (`violates_record_cases`); where no two records meet, a value departs as a whole or not at all.

  4. **Spelling** — in a declaration without defects all names along a path are identifiers.  So the
     text of a reported path is parsed as the path again (`Violates.spelled`).
-/
import Mathlib.Data.List.Induction
import Verdict.Proofs.Conformance

namespace Verdict

/-! ## Places -/

/-- At the path, `declared` is declared in `t` and `found` is found in `v`. -/
structure Meets (t : ValueType) (v : Value) (path : List String) (declared : ValueType)
    (found : Value) : Prop where
  declares : t.at? path = some declared
  present : v.at? path = some found

/-- Does at least one of the two have no fields? -/
def Whole (declared : ValueType) (found : Value) : Prop :=
  declared.isScalar = true ∨ ∃ s, found = .scalar s

section

variable {t declared : ValueType} {v found : Value} {s : Shape} {r : Record} {name : String}
  {path : List String}

theorem meets_nil_iff : Meets t v [] declared found ↔ t = declared ∧ v = found := by
  constructor
  · rintro ⟨hdeclares, hpresent⟩
    rw [ValueType.at?_nil] at hdeclares
    rw [Value.at?_nil] at hpresent
    exact ⟨Option.some.inj hdeclares, Option.some.inj hpresent⟩
  · rintro ⟨rfl, rfl⟩
    exact ⟨t.at?_nil, v.at?_nil⟩

theorem meets_root (t : ValueType) (v : Value) : Meets t v [] t v := meets_nil_iff.mpr ⟨rfl, rfl⟩

/-- A path that goes into a record goes through one of its fields. -/
theorem meets_cons_iff :
    Meets (.record s) (.record r) (name :: path) declared found
      ↔ ∃ t v, s.type? name = some t ∧ r.get? name = some v ∧ Meets t v path declared found := by
  constructor
  · rintro ⟨hdeclares, hpresent⟩
    obtain ⟨t, ht, hdeclares⟩ := Option.bind_eq_some_iff.mp hdeclares
    obtain ⟨v, hv, hpresent⟩ := Option.bind_eq_some_iff.mp hpresent
    exact ⟨t, v, ht, hv, hdeclares, hpresent⟩
  · rintro ⟨t, v, ht, hv, hdeclares, hpresent⟩
    exact ⟨Option.bind_eq_some_iff.mpr ⟨t, ht, hdeclares⟩,
      Option.bind_eq_some_iff.mpr ⟨v, hv, hpresent⟩⟩

/-- Where no two records meet, no path goes further. -/
theorem Meets.eq_nil (hwhole : Whole t v) (h : Meets t v path declared found) : path = [] := by
  cases path with
  | nil => rfl
  | cons name path =>
      rcases hwhole with hscalar | ⟨s, rfl⟩
      · cases t with
        | scalar t => cases h.declares
        | record s => cases hscalar
      · cases h.present

/-- Two records that meet are not whole. -/
theorem not_whole_record : ¬ Whole (.record s) (.record r) := by
  rintro (hscalar | ⟨x, hx⟩)
  · cases hscalar
  · cases hx

end

/-! ## What a violation says -/

/-- The path that a violation reports. -/
def ShapeViolation.path : ShapeViolation → List String
  | missingField path => path
  | unexpectedField path => path
  | typeMismatch path _ _ => path

/-- The same violation, seen from where `front` begins. -/
def ShapeViolation.behind (front : List String) : ShapeViolation → ShapeViolation
  | missingField path => missingField (front ++ path)
  | unexpectedField path => unexpectedField (front ++ path)
  | typeMismatch path declared found => typeMismatch (front ++ path) declared found

/-- What a violation says of a value `v` that is declared as `t` is so.  Where a record is found and
    a record is declared, it is a field that departs, and not the record. -/
inductive Violates (t : ValueType) (v : Value) : ShapeViolation → Prop
  | missingField {parent : List String} {name : String} {s : Shape} {r : Record}
      {declared : ValueType} (place : Meets t v parent (.record s) (.record r))
      (declares : s.type? name = some declared) (lacks : r.get? name = none) :
      Violates t v (.missingField (parent ++ [name]))
  | unexpectedField {parent : List String} {name : String} {s : Shape} {r : Record}
      (place : Meets t v parent (.record s) (.record r)) (has : name ∈ r.names)
      (undeclared : s.type? name = none) : Violates t v (.unexpectedField (parent ++ [name]))
  | typeMismatch {path : List String} {declared : ValueType} {found : Value}
      (place : Meets t v path declared found) (whole : Whole declared found)
      (rejects : declared.accepts found = false) :
      Violates t v (.typeMismatch path declared found.kind)

theorem ShapeViolation.path_behind (front : List String) (e : ShapeViolation) :
    (e.behind front).path = front ++ e.path := by
  cases e <;> rfl

theorem ShapeViolation.behind_nil (e : ShapeViolation) : e.behind [] = e := by
  cases e <;> rfl

theorem ShapeViolation.behind_behind (front further : List String) (e : ShapeViolation) :
    (e.behind further).behind front = e.behind (front ++ further) := by
  cases e <;> simp only [behind, List.append_assoc]

/-- **Conforming values have no violations**: along every declared path they go on conforming. -/
theorem Conforms.not_violates {t : ValueType} {v : Value} (h : Conforms t v) (e : ShapeViolation) :
    ¬ Violates t v e := by
  have hplace : ∀ {path declared found}, Meets t v path declared found →
      Conforms declared found := by
    intro path declared found hmeets
    obtain ⟨w, hw, hconf⟩ := h.at? hmeets.declares
    obtain rfl : w = found := Option.some.inj (hw.symm.trans hmeets.present)
    exact hconf
  intro hviolates
  cases hviolates with
  | missingField place declares lacks =>
      -- A conforming record has every declared field.
      obtain ⟨x, hx, _⟩ := (hplace place).get? declares
      rw [lacks] at hx
      cases hx
  | @unexpectedField parent name s r place has undeclared =>
      -- It has no other field.
      cases hplace place with
      | record _ _ declared =>
          obtain ⟨u, hu⟩ := Shape.mem_names_iff.mp (declared name has)
          rw [undeclared] at hu
          cases hu
  | typeMismatch place whole rejects =>
      -- What conforms at its place is accepted there.
      rw [ValueType.accepts_iff.mpr (hplace place)] at rejects
      cases rejects

/-! ## The cases of a violation -/

section

variable {s : Shape} {r : Record} {name : String} {t : ValueType} {v : Value} {e : ShapeViolation}

/-- A violation inside a field is one of the record. -/
theorem Violates.field (ht : s.type? name = some t) (hv : r.get? name = some v)
    (h : Violates t v e) : Violates (.record s) (.record r) (e.behind [name]) := by
  have hplace : ∀ {path declared found}, Meets t v path declared found →
      Meets (.record s) (.record r) (name :: path) declared found :=
    fun hmeets => meets_cons_iff.mpr ⟨t, v, ht, hv, hmeets⟩
  cases h with
  | missingField place declares lacks => exact .missingField (hplace place) declares lacks
  | unexpectedField place has undeclared => exact .unexpectedField (hplace place) has undeclared
  | typeMismatch place whole rejects => exact .typeMismatch (hplace place) whole rejects

/-- **The violations of a record**: a declared field is missing, a field is not declared, or there
    is a violation inside a field.  The cases are those of the path to the record that departs: it
    is the record itself, or it is found behind the first name of the path. -/
theorem violates_record_cases (h : Violates (.record s) (.record r) e) :
    (∃ name t, s.type? name = some t ∧ r.get? name = none ∧ e = .missingField [name])
      ∨ (∃ name ∈ r.names, s.type? name = none ∧ e = .unexpectedField [name])
      ∨ ∃ name t v e', s.type? name = some t ∧ r.get? name = some v ∧ Violates t v e'
          ∧ e = e'.behind [name] := by
  cases h with
  | @missingField parent name inner r' declared place declares lacks =>
      cases parent with
      | nil =>
          obtain ⟨hs, hr⟩ := meets_nil_iff.mp place
          cases hs
          cases hr
          exact .inl ⟨name, declared, declares, lacks, rfl⟩
      | cons first parent =>
          obtain ⟨t, v, ht, hv, place⟩ := meets_cons_iff.mp place
          exact .inr (.inr ⟨first, t, v, _, ht, hv, .missingField place declares lacks, rfl⟩)
  | @unexpectedField parent name inner r' place has undeclared =>
      cases parent with
      | nil =>
          obtain ⟨hs, hr⟩ := meets_nil_iff.mp place
          cases hs
          cases hr
          exact .inr (.inl ⟨name, has, undeclared, rfl⟩)
      | cons first parent =>
          obtain ⟨t, v, ht, hv, place⟩ := meets_cons_iff.mp place
          exact .inr (.inr ⟨first, t, v, _, ht, hv, .unexpectedField place has undeclared, rfl⟩)
  | @typeMismatch path declared found place whole rejects =>
      cases path with
      | nil =>
          -- The record itself is no mismatch, being a record where one is declared.
          obtain ⟨rfl, rfl⟩ := meets_nil_iff.mp place
          exact absurd whole not_whole_record
      | cons first path =>
          obtain ⟨t, v, ht, hv, place⟩ := meets_cons_iff.mp place
          exact .inr (.inr ⟨first, t, v, _, ht, hv, .typeMismatch place whole rejects, rfl⟩)

/-- Where no two records meet, the value departs as a whole or not at all. -/
theorem violates_whole (hwhole : Whole t v) (h : Violates t v e) :
    e = .typeMismatch [] t v.kind := by
  have hroot : ∀ {path s r}, ¬ Meets t v path (.record s) (.record r) := by
    intro path s r place
    obtain rfl := place.eq_nil hwhole
    obtain ⟨rfl, rfl⟩ := meets_nil_iff.mp place
    exact not_whole_record hwhole
  cases h with
  | missingField place _ _ => exact absurd place hroot
  | unexpectedField place _ _ => exact absurd place hroot
  | typeMismatch place _ _ =>
      obtain rfl := place.eq_nil hwhole
      obtain ⟨rfl, rfl⟩ := meets_nil_iff.mp place
      rfl

end

/-! ## Paths as they are written -/

/-- Points stand between the names of a path, whatever its length. -/
theorem dotted_snoc (front : List String) (name : String) :
    dotted (front ++ [name])
      = if (dotted front).isEmpty then name else dotted front ++ "." ++ name := by
  unfold dotted
  rw [List.foldl_append]
  rfl

/-- Identifiers with points between them are no empty text, so that no point is left out.  A point
    is left out behind an empty text, which a single empty name would be. -/
theorem dotted_identifiers {names : List String} (hne : names ≠ [])
    (h : ∀ n ∈ names, isIdentifier n = true) :
    dotted names = ".".intercalate names ∧ (dotted names).isEmpty = false := by
  induction names using List.reverseRecOn with
  | nil => exact absurd rfl hne
  | append_singleton front name ih =>
      obtain ⟨hfront, hname⟩ := List.forall_mem_append.mp h
      have hsome : name.isEmpty = false :=
        isEmpty_of_isIdentifier (hname name (List.mem_singleton_self name))
      rw [dotted_snoc]
      cases front with
      | nil =>
          rw [List.nil_append, String.intercalate_singleton]
          exact ⟨rfl, hsome⟩
      | cons first others =>
          have hothers : first :: others ≠ [] := List.cons_ne_nil first others
          obtain ⟨hsame, hfilled⟩ := ih hothers hfront
          rw [hfilled, if_neg Bool.false_ne_true, hsame,
            String.intercalate_append_of_ne_nil hothers (List.cons_ne_nil _ _),
            String.intercalate_singleton]
          refine ⟨rfl, Bool.eq_false_iff.mpr fun hempty => ?_⟩
          rw [String.isEmpty_iff, String.append_eq_empty_iff] at hempty
          rw [hempty.2] at hsome
          cases hsome

/-- A path that can be parsed is written in a report as it is in a condition. -/
theorem FieldPath.Parsed.dotted_names {p : FieldPath} (h : p.Parsed) : dotted p.names = p.text :=
  (dotted_identifiers (List.cons_ne_nil p.head.text p.restNames) (parsed_iff.mp h)).1

theorem FieldPath.Parsed.isEmpty_text {p : FieldPath} (h : p.Parsed) : p.text.isEmpty = false := by
  rw [← h.dotted_names]
  exact (dotted_identifiers (List.cons_ne_nil p.head.text p.restNames) (parsed_iff.mp h)).2

/-- The report spells its path: as a field path, which is read back from the text, or as the field
    path of a record with any name behind it. -/
def ShapeViolation.Spelled : ShapeViolation → Prop
  | missingField path =>
      ∃ p : FieldPath, p.names = path ∧ FieldPath.parse (dotted path) = .ok p
        ∧ (missingField path).message = "missing field `" ++ p.text ++ "`"
  | typeMismatch path expected found =>
      ∃ p : FieldPath, p.names = path ∧ FieldPath.parse (dotted path) = .ok p
        ∧ (typeMismatch path expected found).message
          = "field `" ++ p.text ++ "` expected " ++ expected.text ++ ", found " ++ found.name
  | unexpectedField path =>
      ∃ parent name, path = parent ++ [name]
        ∧ (parent = [] ∧ dotted path = name
          ∨ ∃ p : FieldPath, p.names = parent ∧ FieldPath.parse (dotted parent) = .ok p
            ∧ dotted path = p.text ++ "." ++ name)
        ∧ (unexpectedField path).message = "unexpected field `" ++ dotted path ++ "`"

/-- **Every violation is spelled**, if the declaration has no defects.

    A path that the declaration has consists of identifiers, so it is read back from its text.  What
    was not declared may have any name: then the path to its record is read back. -/
theorem Violates.spelled {s : Shape} (hs : s.defect? = none) {r : Record} {e : ShapeViolation}
    (h : Violates (.record s) (.record r) e) : e.Spelled := by
  have hnamed : (ValueType.record s).WellNamed := Shape.wellNamed_iff.mpr hs
  have hunambiguous := ValueType.Unambiguous.of_defect? (ValueType.defect?_eq_none_iff.mpr hnamed)
  have hread : ∀ {path u}, (ValueType.record s).at? path = some u → path ≠ [] →
      ∃ p : FieldPath, p.names = path ∧ FieldPath.parse (dotted path) = .ok p
        ∧ dotted path = p.text := by
    intro path u hat hne
    obtain ⟨p, rfl⟩ := FieldPath.exists_names_eq hne
    have hparsed : p.Parsed := hnamed.parsed (hunambiguous.at?_eq_some_iff.mp hat)
    rw [hparsed.dotted_names]
    exact ⟨p, rfl, hparsed.parse_text, rfl⟩
  cases h with
  | @missingField parent name inner r' declared place declares _ =>
      -- The missing field is declared, and so its whole path is.
      have hat : (ValueType.record s).at? (parent ++ [name]) = some declared := by
        rw [ValueType.at?_append, place.declares, Option.bind_some, ValueType.at?, declares,
          Option.bind_some, ValueType.at?_nil]
      obtain ⟨p, hp, hparse, htext⟩ := hread hat (List.append_ne_nil_of_right_ne_nil _
        (List.cons_ne_nil _ _))
      refine ⟨p, hp, hparse, ?_⟩
      rw [← htext]
      rfl
  | @unexpectedField parent name inner r' place _ _ =>
      refine ⟨parent, name, rfl, ?_, rfl⟩
      cases parent with
      | nil => exact .inl ⟨rfl, rfl⟩
      | cons first parent =>
          -- A name too many, in a record that is declared.
          obtain ⟨p, hp, hparse, htext⟩ := hread place.declares (List.cons_ne_nil _ _)
          have hparsed : p.Parsed := ⟨_, hparse⟩
          refine .inr ⟨p, hp, hparse, ?_⟩
          rw [dotted_snoc, htext, hparsed.isEmpty_text, if_neg Bool.false_ne_true]
  | @typeMismatch path declared found place whole _ =>
      -- A record is declared at the root, and a record is what was checked.
      have hne : path ≠ [] := by
        rintro rfl
        obtain ⟨rfl, rfl⟩ := meets_nil_iff.mp place
        exact not_whole_record whole
      obtain ⟨p, hp, hparse, htext⟩ := hread place.declares hne
      refine ⟨p, hp, hparse, ?_⟩
      rw [← htext]
      rfl

end Verdict
