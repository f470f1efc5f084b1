/-
  Conditions read back from their forms.

  1. **Paths** — a path is written as its text.  That text is parsed to the path EXACTLY if the path
     can be parsed from any text at all.

  2. **Literals** — all that a form can lose is a float that is not finite: it is written as null,
     which is no literal.

  3. **Trees** — so a condition is read back exactly if its paths can be parsed and its literals are
     finite (`ofForm?_toForm_iff`).  Empty nodes and nodes of one part are written as what they are,
     so the tree is the same, not only its tests.
-/
import Verdict.Form.Condition
import Verdict.Proofs.Form.Value
import Verdict.Proofs.Name

namespace Verdict

/-! ## Tests -/

/-- **A path** is read back exactly if it can be parsed.  It is written as its text, and the text of
    a path whose names are not identifiers is refused, or read as another path. -/
theorem FieldPath.ofForm?_toForm_iff {p : FieldPath} :
    FieldPath.ofForm? p.toForm = some p ↔ p.Parsed := by
  show (FieldPath.parse p.text).toOption = some p ↔ _
  constructor
  · exact FieldPath.parsed_of_toOption
  · intro h
    rw [h.parse_text]
    rfl

/-- **A comparator** is read back. -/
theorem Comparator.ofForm?_toForm (c : Comparator) : Comparator.ofForm? c.toForm = some c := by
  cases c <;> rfl

namespace FieldTest

/-- Is the literal of a test, if it has one, no float or a finite one? -/
def Finite : FieldTest → Prop
  | truthy _ => True
  | compare _ _ literal => literal.Finite

/-- A test whose form says all of it. -/
structure Storable (t : FieldTest) : Prop where
  path : t.path.Parsed
  literal : t.Finite

/-- The form of a comparison is read as far as its path and its literal are: the comparator is
    always read back, so only the other two parts can fail. -/
theorem ofForm?_toForm_compare (p : FieldPath) (c : Comparator) (literal : Scalar) :
    ofForm? (toForm (compare p c literal))
      = (FieldPath.ofForm? p.toForm).bind fun q =>
          (Scalar.ofForm? literal.toForm).map (compare q c) := by
  have hpath : Form.required FieldPath.ofForm?
      [("path", p.toForm), ("comparator", c.toForm), ("literal", literal.toForm)] "path"
        = FieldPath.ofForm? p.toForm := rfl
  have hcomparator : Form.required Comparator.ofForm?
      [("path", p.toForm), ("comparator", c.toForm), ("literal", literal.toForm)] "comparator"
        = some c := c.ofForm?_toForm
  have hliteral : Form.required Scalar.ofForm?
      [("path", p.toForm), ("comparator", c.toForm), ("literal", literal.toForm)] "literal"
        = Scalar.ofForm? literal.toForm := rfl
  rw [toForm, ofForm?, hpath, hcomparator, hliteral]
  cases FieldPath.ofForm? p.toForm with
  | none => rfl
  | some q => cases Scalar.ofForm? literal.toForm <;> rfl

/-- **A test** is read back if its path can be parsed and its literal is finite.  A bare path is
    written without a comparator and a literal, and that is how it is known again. -/
theorem ofForm?_toForm (t : FieldTest) (h : t.Storable) : ofForm? t.toForm = some t := by
  have hpath := FieldPath.ofForm?_toForm_iff.mpr h.path
  cases t with
  | truthy p =>
      have hpath : FieldPath.ofForm? p.toForm = some p := hpath
      rw [toForm, ofForm?, hpath]
      rfl
  | compare p c literal =>
      have hpath : FieldPath.ofForm? p.toForm = some p := hpath
      rw [ofForm?_toForm_compare, hpath, Option.bind_some, literal.ofForm?_toForm h.literal]
      rfl

/-- What is read back as itself has such a path and such a literal: each part of the form was read
    back as itself. -/
theorem storable_of_ofForm? {t : FieldTest} (h : ofForm? t.toForm = some t) : t.Storable := by
  cases t with
  | truthy p =>
      rw [toForm, ofForm?] at h
      obtain ⟨q, hq, hsame⟩ := Option.map_eq_some_iff.mp h
      cases hsame
      exact ⟨FieldPath.ofForm?_toForm_iff.mp hq, trivial⟩
  | compare p c literal =>
      rw [ofForm?_toForm_compare] at h
      obtain ⟨q, hq, hread⟩ := Option.bind_eq_some_iff.mp h
      obtain ⟨s, hs, hsame⟩ := Option.map_eq_some_iff.mp hread
      cases hsame
      refine ⟨FieldPath.ofForm?_toForm_iff.mp hq, ?_⟩
      -- Had the literal been lost, nothing would have been read.
      refine Classical.byContradiction fun hnot => ?_
      rw [Scalar.ofForm?_toForm_of_not hnot] at hs
      cases hs

end FieldTest

/-! ## Trees -/

namespace FieldCondition

open Condition

/-- Are all floats among the literals of a condition finite? -/
def Finite (c : FieldCondition) : Prop := ∀ t ∈ c.leaves, t.Finite

/-- A condition whose form says all of it. -/
def Storable (c : FieldCondition) : Prop := ∀ t ∈ c.leaves, t.Storable

mutual

/-- **A condition** is read back if all its tests are.  By recursion on the tree, one case for each
    node; the rows under `all` and `any` are read back part by part. -/
theorem ofForm?_toForm : ∀ c : FieldCondition, Storable c → ofForm? (toForm c) = some c
  | .constant b, _ => rfl
  | .leaf t, h => by
      rw [toForm, ofForm?, t.ofForm?_toForm (h t (List.mem_singleton_self t))]
      rfl
  | .not c, h => by
      rw [toForm, ofForm?, ofForm?_toForm c h]
      rfl
  | .all cs, h => by
      rw [toForm, ofForm?, ofForms?_toForms cs h]
      rfl
  | .any cs, h => by
      rw [toForm, ofForm?, ofForms?_toForms cs h]
      rfl

/-- The same of a row of conditions. -/
theorem ofForms?_toForms : ∀ cs : List FieldCondition, (∀ t ∈ leavesOf cs, t.Storable) →
    ofForms? (toForms cs) = some cs
  | [], _ => rfl
  | c :: cs, h => by
      obtain ⟨hc, hcs⟩ := List.forall_mem_append.mp h
      rw [toForms, ofForms?, ofForm?_toForm c hc, ofForms?_toForms cs hcs]

end

mutual

/-- What is read back as itself has no other tests.  Along the same recursion, backwards: what was
    read as a node came from reading the parts of that node. -/
theorem storable_of_ofForm? : ∀ c : FieldCondition, ofForm? (toForm c) = some c → Storable c
  | .constant b, _ => nofun
  | .leaf t, h => by
      rw [toForm, ofForm?] at h
      obtain ⟨u, hu, hsame⟩ := Option.map_eq_some_iff.mp h
      cases hsame
      exact List.forall_mem_singleton.mpr (FieldTest.storable_of_ofForm? hu)
  | .not c, h => by
      rw [toForm, ofForm?] at h
      obtain ⟨d, hd, hsame⟩ := Option.map_eq_some_iff.mp h
      cases hsame
      exact storable_of_ofForm? c hd
  | .all cs, h => by
      rw [toForm, ofForm?] at h
      obtain ⟨ds, hds, hsame⟩ := Option.map_eq_some_iff.mp h
      cases hsame
      exact storable_of_ofForms? cs hds
  | .any cs, h => by
      rw [toForm, ofForm?] at h
      obtain ⟨ds, hds, hsame⟩ := Option.map_eq_some_iff.mp h
      cases hsame
      exact storable_of_ofForms? cs hds

/-- The same of a row: both its head and the others were read. -/
theorem storable_of_ofForms? : ∀ cs : List FieldCondition, ofForms? (toForms cs) = some cs →
    ∀ t ∈ leavesOf cs, t.Storable
  | [], _ => nofun
  | c :: cs, h => by
      rw [toForms, ofForms?] at h
      split at h
      · rename_i d ds hd hds
        cases h
        exact List.forall_mem_append.mpr ⟨storable_of_ofForm? c hd, storable_of_ofForms? cs hds⟩
      · cases h

end

/-- **Exactly the conditions** whose paths can be parsed and whose literals are finite are read
    back from their forms.  No other property of a condition matters, its depth and size least of
    all: the limits are asked about by the check, not by the form. -/
theorem ofForm?_toForm_iff (c : FieldCondition) : ofForm? (toForm c) = some c ↔ Storable c :=
  ⟨storable_of_ofForm? c, ofForm?_toForm c⟩

/-- Where all paths can be parsed, only the literals count. -/
theorem storable_iff_finite {c : FieldCondition} (h : ∀ t ∈ c.leaves, t.path.Parsed) :
    Storable c ↔ Finite c := by
  constructor
  · intro hstorable t ht
    exact (hstorable t ht).literal
  · intro hfinite t ht
    exact ⟨h t ht, hfinite t ht⟩

end FieldCondition

end Verdict
