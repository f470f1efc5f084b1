/-
  Fields of records — what insertion and widening do to the view `get?`.

  1. **View** — a record is looked at through `get?` and through the names it has an entry for;
     `mem_names_iff` ties the two together.

  2. **Insertion** — `get?_insert`: the inserted name holds the inserted value, all others hold
     what they held.  This needs NO order of the names, so a record that is built field by field
     is known without knowing where its fields stand.

  3. **Order** — a record that is made of its fields is in order, at every level
     (`ordered_ofList`), so that no name stands in it twice.

  4. **Widening** — `at?_widenTo`: reading a path after widening is widening after reading, at the
     type that the path leads to.

  Core only.
-/
import Verdict.Shape.Conformance

namespace Verdict

namespace Record

/-- Induction along the fields of a record; what is inside their values plays no part. -/
@[induction_eliminator]
theorem alongFields {motive : Record → Prop} (nil : motive .nil)
    (cons : ∀ n v rest, motive rest → motive (.cons n v rest)) : ∀ r, motive r
  | .nil => nil
  | .cons n v rest => cons n v rest (alongFields nil cons rest)

/-! ## Names and entries -/

theorem names_cons (n : String) (v : Value) (rest : Record) :
    (cons n v rest).names = n :: rest.names := rfl

/-- A record has an entry for exactly its names. -/
theorem mem_names_iff {r : Record} {name : String} :
    name ∈ r.names ↔ ∃ v, r.get? name = some v := by
  induction r with
  | nil => exact ⟨nofun, fun ⟨_, h⟩ => nomatch h⟩
  | cons n v rest ih =>
      rw [names_cons, List.mem_cons, ih, get?]
      by_cases h : n = name
      · rw [if_pos h]
        exact ⟨fun _ => ⟨v, rfl⟩, fun _ => Or.inl h.symm⟩
      · rw [if_neg h]
        constructor
        · rintro (heq | hrest)
          · exact absurd heq.symm h
          · exact hrest
        · exact Or.inr

/-! ## Insertion -/

/-- **Insertion.**  The inserted name holds the inserted value, every other name what it held. -/
theorem get?_insert (r : Record) (name : String) (value : Value) (key : String) :
    (r.insert name value).get? key = if name = key then some value else r.get? key := by
  induction r with
  | nil => rfl
  | cons n v rest ih =>
      unfold insert
      split
      · -- The name goes in front of the first entry.
        rfl
      · split
        · -- The first entry is that of the name, and is replaced.
          rename_i hname
          subst hname
          by_cases h : name = key
          · simp only [get?, if_pos h]
          · simp only [get?, if_neg h]
        · rename_i hname
          -- The entry in front is another one: it decides only about its own name.
          by_cases h : n = key
          · have hkey : name ≠ key := fun heq => hname (heq.trans h.symm)
            simp only [get?, if_pos h, if_neg hkey]
          · simp only [get?, if_neg h, ih]

theorem mem_names_insert {r : Record} {name key : String} {value : Value} :
    key ∈ (r.insert name value).names ↔ key = name ∨ key ∈ r.names := by
  rw [mem_names_iff, mem_names_iff, get?_insert]
  by_cases h : name = key
  · rw [if_pos h]
    exact ⟨fun _ => Or.inl h.symm, fun _ => ⟨value, rfl⟩⟩
  · rw [if_neg h]
    exact ⟨Or.inr, fun hkey => hkey.resolve_left fun heq => h heq.symm⟩

/-- Insertion keeps the names in ascending order, so that none stands there twice. -/
theorem pairwise_names_insert {r : Record} (h : r.names.Pairwise (· < ·)) (name : String)
    (value : Value) : (r.insert name value).names.Pairwise (· < ·) := by
  induction r with
  | nil => exact List.pairwise_singleton _ _
  | cons n v rest ih =>
      rw [names_cons, List.pairwise_cons] at h
      obtain ⟨hn, hrest⟩ := h
      unfold insert
      split
      · -- In front of the first entry, and so of all others.
        rename_i hlt
        rw [names_cons, names_cons, List.pairwise_cons]
        refine ⟨fun m hm => ?_, List.pairwise_cons.mpr ⟨hn, hrest⟩⟩
        rcases List.mem_cons.mp hm with rfl | hm
        · exact hlt
        · exact String.lt_trans hlt (hn m hm)
      · rename_i hle
        split
        · exact List.pairwise_cons.mpr ⟨hn, hrest⟩
        · -- Behind the first entry, whose name is smaller than the inserted one.
          rename_i hne
          rw [names_cons, List.pairwise_cons]
          refine ⟨fun m hm => ?_, ih hrest⟩
          rcases mem_names_insert.mp hm with rfl | hm
          · have hle' : n ≤ m := String.not_lt.mp hle
            exact Decidable.by_contra fun hnot =>
              hne (String.le_antisymm (String.not_lt.mp hnot) hle')
          · exact hn m hm

theorem nodup_names {r : Record} (h : r.names.Pairwise (· < ·)) : r.names.Nodup := by
  refine h.imp fun hlt heq => ?_
  subst heq
  exact String.lt_irrefl _ hlt

/-! ## Order -/

theorem Ordered.pairwise {r : Record} (h : r.Ordered) : r.names.Pairwise (· < ·) := by
  induction r with
  | nil => exact .nil
  | cons n v rest ih =>
      obtain ⟨_, hn, hrest⟩ := h
      exact List.pairwise_cons.mpr ⟨hn, ih hrest⟩

/-- What stands in a record in order is in order. -/
theorem Ordered.get? {r : Record} (h : r.Ordered) {name : String} {v : Value}
    (hv : r.get? name = some v) : v.Ordered := by
  induction r with
  | nil => exact nomatch hv
  | cons n w rest ih =>
      obtain ⟨hw, _, hrest⟩ := h
      rw [Record.get?] at hv
      split at hv
      · cases hv
        exact hw
      · exact ih hrest hv

/-- Insertion keeps a record in order, at every level: the names by `pairwise_names_insert`, and the
    values because one is inserted that is in order itself. -/
theorem Ordered.insert {r : Record} (h : r.Ordered) (name : String) {value : Value}
    (hvalue : value.Ordered) : (r.insert name value).Ordered := by
  induction r with
  | nil => exact ⟨hvalue, nofun, trivial⟩
  | cons n v rest ih =>
      obtain ⟨hv, hn, hrest⟩ := h
      have hnames := pairwise_names_insert (r := cons n v rest)
        (List.pairwise_cons.mpr ⟨hn, hrest.pairwise⟩) name value
      unfold Record.insert at hnames ⊢
      split
      · rename_i hlt
        rw [if_pos hlt] at hnames
        exact ⟨hvalue, (List.pairwise_cons.mp hnames).1, hv, hn, hrest⟩
      · rename_i hle
        rw [if_neg hle] at hnames
        split
        · exact ⟨hvalue, hn, hrest⟩
        · rename_i hne
          rw [if_neg hne] at hnames
          exact ⟨hv, (List.pairwise_cons.mp hnames).1, ih hrest⟩

/-- **Every record that is made of its fields** is in order, whatever order the fields come in and
    however often a name is among them. -/
theorem ordered_ofList {fields : List (String × Value)} (h : ∀ f ∈ fields, f.2.Ordered) :
    (ofList fields).Ordered := by
  -- Along the fields, onto any record that is in order so far.
  have hrow : ∀ r : Record, r.Ordered →
      (fields.foldl (fun r f => r.insert f.1 f.2) r).Ordered := by
    induction fields with
    | nil => exact fun r hr => hr
    | cons f fields ih =>
        obtain ⟨hf, hfields⟩ := List.forall_mem_cons.mp h
        exact fun r hr => ih hfields (r.insert f.1 f.2) (hr.insert f.1 hf)
  exact hrow .nil trivial

/-! ## Widening -/

theorem names_widenTo (shape : Shape) (r : Record) : (r.widenTo shape).names = r.names := by
  induction r with
  | nil => rfl
  | cons n v rest ih => rw [widenTo, names_cons, names_cons, ih]

/-- A field that the shape declares is widened to its type. -/
theorem get?_widenTo {shape : Shape} {name : String} {t : ValueType}
    (h : shape.type? name = some t) (r : Record) :
    (r.widenTo shape).get? name = (r.get? name).map (·.widenTo t) := by
  induction r with
  | nil => rfl
  | cons n v rest ih =>
      rw [widenTo]
      by_cases hn : n = name
      · subst hn
        simp [get?, h]
      · simp only [get?, if_neg hn, ih]

/-- A field that the shape does not declare stays as it is. -/
theorem get?_widenTo_of_undeclared {shape : Shape} {name : String}
    (h : shape.type? name = none) (r : Record) : (r.widenTo shape).get? name = r.get? name := by
  induction r with
  | nil => rfl
  | cons n v rest ih =>
      rw [widenTo]
      by_cases hn : n = name
      · subst hn
        simp [get?, h]
      · simp only [get?, if_neg hn, ih]

end Record

/-! ## Paths -/

theorem Value.at?_nil (v : Value) : v.at? [] = some v := by
  cases v <;> rfl

/-- Reading a path in two stages is reading it at once. -/
theorem Value.at?_append (v : Value) (front rest : List String) :
    v.at? (front ++ rest) = (v.at? front).bind (·.at? rest) := by
  induction front generalizing v with
  | nil => cases v <;> rfl
  | cons name front ih =>
      cases v with
      | scalar s => rfl
      | record r =>
          show (r.get? name).bind (·.at? (front ++ rest))
            = ((r.get? name).bind (·.at? front)).bind (·.at? rest)
          cases r.get? name with
          | none => rfl
          | some w => exact ih w

/-- **Reading commutes with widening.**  Where a type leads a path to `ty`, the value found there
    after widening is the value found there before, widened to `ty`.  The value need not conform: a
    path that ends in nothing before ends in nothing after. -/
theorem Value.at?_widenTo {path : List String} {declared ty : ValueType}
    (h : declared.at? path = some ty) (v : Value) :
    (v.widenTo declared).at? path = (v.at? path).map (·.widenTo ty) := by
  induction path generalizing declared v with
  | nil =>
      obtain rfl : declared = ty := by simpa [ValueType.at?] using h
      cases v <;> rfl
  | cons name path ih =>
      cases declared with
      | scalar t => simp [ValueType.at?] at h
      | record shape =>
          obtain ⟨t, ht, hpath⟩ := Option.bind_eq_some_iff.mp h
          cases v with
          | scalar s => rfl
          | record r =>
              have hget := Record.get?_widenTo ht r
              show ((r.widenTo shape).get? name).bind (·.at? path) = _
              rw [hget]
              show _ = ((r.get? name).bind (·.at? path)).map (·.widenTo ty)
              cases r.get? name with
              | none => rfl
              | some w => exact ih hpath w

end Verdict
