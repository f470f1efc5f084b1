/-
  Fields of shapes — what a declaration without defects amounts to.

  1. **View** — a shape is looked at through `type?`, which takes the FIRST declaration of a name,
     and through the row of its declarations, `toList`.

  2. **Defects** — `defect?_eq_none_iff`: a shape is without defects exactly if its names are
     identifiers, all different, and the types of its fields are without defects.  Then `type?`
     and `toList` say the same (`type?_eq_some_iff`), so no declaration hides another.

  3. **Levels** — `ValueType.Unambiguous`: no declaration hides another one, at any level.  This is
     all that the theory of types needs of a type without defects.  `ValueType.WellNamed` is the
     whole of it: a type is without defects exactly if it is well named.

  4. **Paths** — `ValueType.Declares` follows declarations along a path.  In an unambiguous type
     `at?` finds exactly what is declared, and in a well named one a path that leads anywhere can
     be parsed (`ValueType.WellNamed.parsed`).

  Core only.
-/
import Verdict.Proofs.Name
import Verdict.Shape.Basic

namespace Verdict

namespace Shape

/-- Induction along the fields of a shape; what is inside their types plays no part. -/
@[induction_eliminator]
theorem alongFields {motive : Shape → Prop} (nil : motive .nil)
    (cons : ∀ n t rest, motive rest → motive (.cons n t rest)) : ∀ s, motive s
  | .nil => nil
  | .cons n t rest => cons n t rest (alongFields nil cons rest)

/-! ## Declarations -/

theorem toList_cons (n : String) (t : ValueType) (rest : Shape) :
    (cons n t rest).toList = (n, t) :: rest.toList := rfl

theorem names_cons (n : String) (t : ValueType) (rest : Shape) :
    (cons n t rest).names = n :: rest.names := rfl

theorem toList_ofList (fields : List (String × ValueType)) : (ofList fields).toList = fields := by
  induction fields with
  | nil => rfl
  | cons f fields ih => rw [ofList, toList_cons, ih]

theorem length_names (s : Shape) : s.names.length = s.length := by
  induction s with
  | nil => rfl
  | cons n t rest ih => rw [names_cons, List.length_cons, ih, length]

/-- What `type?` finds is declared. -/
theorem mem_of_type? {s : Shape} {name : String} {t : ValueType} (h : s.type? name = some t) :
    (name, t) ∈ s.toList := by
  induction s with
  | nil => exact nomatch h
  | cons n u rest ih =>
      rw [type?] at h
      split at h
      · rename_i hn
        cases h
        exact hn ▸ List.mem_cons_self ..
      · exact List.mem_cons_of_mem _ (ih h)

/-- Every declared name has a type. -/
theorem type?_of_mem_names {s : Shape} {name : String} (h : name ∈ s.names) :
    ∃ t, s.type? name = some t := by
  induction s with
  | nil => exact nomatch h
  | cons n u rest ih =>
      rw [type?]
      split
      · exact ⟨u, rfl⟩
      · rename_i hn
        rcases List.mem_cons.mp h with heq | hrest
        · exact absurd heq.symm hn
        · exact ih hrest

theorem mem_names_iff {s : Shape} {name : String} :
    name ∈ s.names ↔ ∃ t, s.type? name = some t := by
  constructor
  · exact type?_of_mem_names
  · rintro ⟨t, h⟩
    exact List.mem_map.mpr ⟨(name, t), mem_of_type? h, rfl⟩

/-- Where all names differ, the first declaration of a name is the only one. -/
theorem type?_eq_some_iff {s : Shape} (hs : s.names.Nodup) {name : String} {t : ValueType} :
    s.type? name = some t ↔ (name, t) ∈ s.toList := by
  constructor
  · exact mem_of_type?
  · induction s with
    | nil => exact nofun
    | cons n u rest ih =>
        intro h
        obtain ⟨hfresh, hrest⟩ := List.nodup_cons.mp hs
        rcases List.mem_cons.mp h with heq | hmem
        · cases heq
          exact if_pos rfl
        · have hne : n ≠ name := by
            rintro rfl
            exact hfresh (List.mem_map.mpr ⟨(n, t), hmem, rfl⟩)
          rw [type?, if_neg hne]
          exact ih hrest hmem

end Shape

/-! ## Induction over types -/

mutual

/-- Induction over types: a record type is reached from the types of its fields. -/
@[induction_eliminator]
theorem ValueType.throughFields {motive : ValueType → Prop} (scalar : ∀ t, motive (.scalar t))
    (record : ∀ s : Shape, (∀ f ∈ s.toList, motive f.2) → motive (.record s)) : ∀ t, motive t
  | .scalar t => scalar t
  | .record s => record s (Shape.forall_fields scalar record s)

theorem Shape.forall_fields {motive : ValueType → Prop} (scalar : ∀ t, motive (.scalar t))
    (record : ∀ s : Shape, (∀ f ∈ s.toList, motive f.2) → motive (.record s)) :
    ∀ s : Shape, ∀ f ∈ s.toList, motive f.2
  | .nil => nofun
  | .cons _ t rest => List.forall_mem_cons.mpr
      ⟨ValueType.throughFields scalar record t, Shape.forall_fields scalar record rest⟩

end

namespace Shape

/-! ## Defects -/

/-- A row of declarations is without defects behind some earlier names.  The induction is along the
    declarations; each of them joins the earlier names, so that none of them comes again. -/
theorem defectAfter?_eq_none_iff {earlier : List String} {s : Shape} :
    s.defectAfter? earlier = none ↔
      (∀ f ∈ s.toList, isIdentifier f.1 = true ∧ f.1 ∉ earlier ∧ f.2.defect? = none)
        ∧ s.names.Nodup := by
  induction s generalizing earlier with
  | nil => exact ⟨fun _ => ⟨nofun, .nil⟩, fun _ => rfl⟩
  | cons n t rest ih =>
      rw [toList_cons, names_cons, List.nodup_cons, List.forall_mem_cons]
      constructor
      · -- All three tests of the first declaration have passed.
        intro h
        rw [defectAfter?] at h
        split at h
        · exact nomatch h
        rename_i hid
        split at h
        · exact nomatch h
        rename_i hnew
        split at h
        · exact nomatch h
        rename_i ht
        obtain ⟨hrest, hnodup⟩ := ih.mp h
        have hid : isIdentifier n = true := by simpa using hid
        have hnew : n ∉ earlier := by simpa using hnew
        refine ⟨⟨⟨hid, hnew, ht⟩, fun f hf => ?_⟩, ?_, hnodup⟩
        · obtain ⟨hf₁, hf₂, hf₃⟩ := hrest f hf
          exact ⟨hf₁, fun hmem => hf₂ (List.mem_cons_of_mem _ hmem), hf₃⟩
        · -- Its name does not come again, as it was among the earlier ones by then.
          intro hmem
          obtain ⟨f, hf, rfl⟩ := List.mem_map.mp hmem
          exact (hrest f hf).2.1 (List.mem_cons_self ..)
      · rintro ⟨⟨⟨hid, hnew, ht⟩, hrest⟩, hfresh, hnodup⟩
        have hnew : earlier.contains n = false := by simpa using hnew
        simp only [defectAfter?, hid, hnew, ht, Bool.not_true, Bool.false_eq_true, if_false]
        refine ih.mpr ⟨fun f hf => ?_, hnodup⟩
        obtain ⟨hf₁, hf₂, hf₃⟩ := hrest f hf
        refine ⟨hf₁, fun hmem => ?_, hf₃⟩
        rcases List.mem_cons.mp hmem with heq | hmem
        · -- the name of the first declaration
          exact hfresh (List.mem_map.mpr ⟨f, hf, heq⟩)
        · -- a name that was there before
          exact hf₂ hmem

/-- **Without defects**: identifiers, all different, with types that are without defects. -/
theorem defect?_eq_none_iff {s : Shape} :
    s.defect? = none ↔
      (∀ f ∈ s.toList, isIdentifier f.1 = true ∧ f.2.defect? = none) ∧ s.names.Nodup := by
  rw [defect?, defectAfter?_eq_none_iff]
  constructor
  · rintro ⟨h, hnodup⟩
    exact ⟨fun f hf => ⟨(h f hf).1, (h f hf).2.2⟩, hnodup⟩
  · rintro ⟨h, hnodup⟩
    exact ⟨fun f hf => ⟨(h f hf).1, nofun, (h f hf).2⟩, hnodup⟩

theorem nodup_of_defect? {s : Shape} (h : s.defect? = none) : s.names.Nodup :=
  (defect?_eq_none_iff.mp h).2

/-- The type of a field is without defects if the shape is. -/
theorem defect?_of_type? {s : Shape} (h : s.defect? = none) {name : String} {t : ValueType}
    (ht : s.type? name = some t) : t.defect? = none :=
  ((defect?_eq_none_iff.mp h).1 (name, t) (mem_of_type? ht)).2

end Shape

theorem ValueType.defect?_record (s : Shape) : (ValueType.record s).defect? = s.defect? := by
  rw [ValueType.defect?, Shape.defect?]

/-- A type without parts has no defects. -/
theorem ValueType.defect?_of_isScalar {t : ValueType} (h : t.isScalar = true) :
    t.defect? = none := by
  cases t with
  | scalar t => rfl
  | record s => exact nomatch h

/-! ## Levels -/

/-- At every level of a type all names are different. -/
inductive ValueType.Unambiguous : ValueType → Prop
  | scalar {t : ScalarType} : Unambiguous (.scalar t)
  | record {s : Shape} (distinct : s.names.Nodup)
      (fields : ∀ f ∈ s.toList, Unambiguous f.2) : Unambiguous (.record s)

/-- A type without defects is unambiguous; the converse fails where a name is no identifier. -/
theorem ValueType.Unambiguous.of_defect? {t : ValueType} (h : t.defect? = none) :
    t.Unambiguous := by
  induction t with
  | scalar t => exact .scalar
  | record s ih =>
      rw [ValueType.defect?_record] at h
      obtain ⟨hfields, hdistinct⟩ := Shape.defect?_eq_none_iff.mp h
      exact .record hdistinct fun f hf => ih f hf (hfields f hf).2

/-- At every level of a type the names are identifiers, and all different. -/
inductive ValueType.WellNamed : ValueType → Prop
  | scalar {t : ScalarType} : WellNamed (.scalar t)
  | record {s : Shape} (identifiers : ∀ name ∈ s.names, isIdentifier name = true)
      (distinct : s.names.Nodup) (fields : ∀ f ∈ s.toList, WellNamed f.2) : WellNamed (.record s)

/-- **Without defects** is well named, at every level.  The search of a record type goes into the
    types of its fields, so the induction is on the type. -/
theorem ValueType.defect?_eq_none_iff {t : ValueType} : t.defect? = none ↔ t.WellNamed := by
  induction t with
  | scalar t => exact ⟨fun _ => .scalar, fun _ => rfl⟩
  | record s ih =>
      rw [ValueType.defect?_record, Shape.defect?_eq_none_iff]
      constructor
      · rintro ⟨hfields, hdistinct⟩
        refine .record (fun name hname => ?_) hdistinct fun f hf => (ih f hf).mp (hfields f hf).2
        obtain ⟨f, hf, rfl⟩ := List.mem_map.mp hname
        exact (hfields f hf).1
      · intro h
        cases h with
        | record identifiers distinct fields =>
            refine ⟨fun f hf => ⟨?_, (ih f hf).mpr (fields f hf)⟩, distinct⟩
            exact identifiers f.1 (List.mem_map.mpr ⟨f, hf, rfl⟩)

theorem Shape.wellNamed_iff {s : Shape} : (ValueType.record s).WellNamed ↔ s.defect? = none := by
  rw [← ValueType.defect?_eq_none_iff, ValueType.defect?_record]

/-! ## Paths -/

theorem ValueType.at?_nil (t : ValueType) : t.at? [] = some t := by
  cases t <;> rfl

/-- Reading a path in two stages is reading it at once. -/
theorem ValueType.at?_append (t : ValueType) (front rest : List String) :
    t.at? (front ++ rest) = (t.at? front).bind (·.at? rest) := by
  induction front generalizing t with
  | nil => cases t <;> rfl
  | cons name front ih =>
      cases t with
      | scalar t => rfl
      | record shape =>
          show (shape.type? name).bind (·.at? (front ++ rest))
            = ((shape.type? name).bind (·.at? front)).bind (·.at? rest)
          cases shape.type? name with
          | none => rfl
          | some u => exact ih u

/-- What a type declares at a path: every name along the path is the name of a declared field. -/
inductive ValueType.Declares : ValueType → List String → ValueType → Prop
  | here {t : ValueType} : Declares t [] t
  | field {s : Shape} {name : String} {path : List String} {t u : ValueType}
      (declared : (name, t) ∈ s.toList) (inside : Declares t path u) :
      Declares (.record s) (name :: path) u

/-- **Declarations along a path.**  Where no declaration hides another one, what is found at a path
    is what is declared there: at every level the first declaration of a name is the only one. -/
theorem ValueType.Unambiguous.at?_eq_some_iff {t u : ValueType} (ht : t.Unambiguous)
    {path : List String} : t.at? path = some u ↔ t.Declares path u := by
  induction path generalizing t with
  | nil =>
      rw [ValueType.at?, Option.some_inj]
      constructor
      · rintro rfl
        exact .here
      · intro h
        cases h
        rfl
  | cons name path ih =>
      cases ht with
      | scalar =>
          -- No path goes into a scalar.
          constructor
          · intro h
            cases h
          · intro h
            cases h
      | @record s distinct fields =>
          rw [ValueType.at?, Option.bind_eq_some_iff]
          simp only [Shape.type?_eq_some_iff distinct]
          constructor
          · rintro ⟨inner, hinner, hat⟩
            exact .field hinner ((ih (fields _ hinner)).mp hat)
          · intro h
            cases h with
            | field declared inside => exact ⟨_, declared, (ih (fields _ declared)).mpr inside⟩

/-- A type without defects declares fields at paths of identifiers only. -/
theorem ValueType.WellNamed.isIdentifier_of_mem {t u : ValueType} {path : List String}
    (ht : t.WellNamed) (h : t.Declares path u) : ∀ n ∈ path, isIdentifier n = true := by
  induction h with
  | here => exact List.forall_mem_nil _
  | @field s name path t u declared _ ih =>
      cases ht with
      | record identifiers _ fields =>
          have hname : name ∈ s.names := List.mem_map_of_mem declared
          exact List.forall_mem_cons.mpr ⟨identifiers name hname, ih (fields _ declared)⟩

/-- **What is declared can be spelled**: a path that leads to a declared field can be parsed. -/
theorem ValueType.WellNamed.parsed {t u : ValueType} (ht : t.WellNamed) {p : FieldPath}
    (h : t.Declares p.names u) : p.Parsed :=
  FieldPath.parsed_iff.mpr (ht.isIdentifier_of_mem h)

end Verdict
