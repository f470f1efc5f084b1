/-
  Values and types read back from their forms.

  1. **Values** — a value is written without a tag, so its form has to say by itself what it is.
     It does if the value is `Storable`: its floats are finite, and its records are in order, as
     all records are that are read or built.  An integer and a float stay different although both
     are numbers of the form.

  2. **Records** — a record is read by inserting its fields one after the other.  Fields that come
     in ascending order are appended (`toList_foldl_insert`), so the order of a record is found
     again.

  3. **Types** — every type and every shape is read back, whatever it declares.

  Core only.
-/
import Verdict.Form.Value
import Verdict.Proofs.Record
import Verdict.Proofs.Shape

namespace Verdict

/-! ## What can be stored -/

/-- Is this no float, or a finite one? -/
def Scalar.Finite : Scalar → Prop
  | .float x => Decimal.isFinite x = true
  | .bool _ | .int _ | .str _ => True

mutual

/-- Are all floats inside a value finite? -/
def Value.Finite : Value → Prop
  | .scalar s => s.Finite
  | .record r => r.Finite

/-- Are all floats inside a record finite? -/
def Record.Finite : Record → Prop
  | .nil => True
  | .cons _ v rest => v.Finite ∧ rest.Finite

end

/-- A value whose form says all of it. -/
structure Value.Storable (v : Value) : Prop where
  ordered : v.Ordered
  finite : v.Finite

/-! ## Scalars -/

theorem Form.ofFloat_of_isFinite {x : Float} (h : Decimal.isFinite x = true) :
    Form.ofFloat x = .float x := if_pos h

/-- **A scalar** is read back if it has a form at all.  The form is untagged: that an integer does
    not come back as a float is because integers and floats are different numbers of a form. -/
theorem Scalar.ofForm?_toForm (s : Scalar) (h : s.Finite) : Scalar.ofForm? s.toForm = some s := by
  cases s with
  | bool b => rfl
  | int n =>
      -- Integers of a form are unbounded, so the reader asks for the range of 64 bits.
      have hfits : Int64.minValue.toInt ≤ n.toInt ∧ n.toInt ≤ Int64.maxValue.toInt :=
        ⟨n.minValue_le_toInt, n.toInt_le⟩
      show (if Int64.minValue.toInt ≤ n.toInt ∧ n.toInt ≤ Int64.maxValue.toInt
        then some (Scalar.int (Int64.ofInt n.toInt)) else _) = _
      rw [if_pos hfits, Int64.ofInt_toInt]
  | float x =>
      show Scalar.ofForm? (Form.ofFloat x) = _
      rw [Form.ofFloat_of_isFinite h]
      rfl
  | str s => rfl

/-- A float that is not finite leaves nothing to be read: its form is null.  So the condition of
    `Scalar.ofForm?_toForm` cannot be dropped. -/
theorem Scalar.ofForm?_toForm_of_not {s : Scalar} (h : ¬ s.Finite) :
    Scalar.ofForm? s.toForm = none := by
  cases s with
  | float x =>
      show Scalar.ofForm? (Form.ofFloat x) = none
      have hnot : ¬ Decimal.isFinite x = true := h
      rw [Form.ofFloat, if_neg hnot]
      rfl
  | bool b => exact absurd trivial h
  | int n => exact absurd trivial h
  | str s => exact absurd trivial h

/-- What is no object is read as a scalar. -/
theorem Value.ofForm?_of_scalar {form : Form} {s : Scalar} (h : Scalar.ofForm? form = some s) :
    Value.ofForm? form = some (.scalar s) := by
  have hobject : ∀ parts, form ≠ .object parts := by
    rintro parts rfl
    cases h
  rw [Value.ofForm?, h, Option.map_some]
  exact hobject

/-! ## Records -/

namespace Record

/-- A record is the row of its fields. -/
theorem toList_injective {r q : Record} (h : r.toList = q.toList) : r = q := by
  induction r generalizing q with
  | nil =>
      cases q with
      | nil => rfl
      | cons m w others => exact nomatch h
  | cons n v rest ih =>
      cases q with
      | nil => exact nomatch h
      | cons m w others =>
          obtain ⟨hfield, hrest⟩ := List.cons.inj h
          obtain ⟨rfl, rfl⟩ := Prod.mk.inj hfield
          rw [ih hrest]

/-- A field whose name comes after all names of a record is appended. -/
theorem toList_insert_of_forall_lt {r : Record} {name : String} (value : Value)
    (h : ∀ m ∈ r.names, m < name) : (r.insert name value).toList = r.toList ++ [(name, value)] := by
  induction r with
  | nil => rfl
  | cons n v rest ih =>
      rw [names_cons, List.forall_mem_cons] at h
      obtain ⟨hn, hrest⟩ := h
      have hne : name ≠ n := by
        rintro rfl
        exact String.lt_irrefl _ hn
      rw [insert, if_neg (String.lt_asymm hn), if_neg hne, toList, ih hrest]
      rfl

/-- Fields in ascending order, behind those that are there, are appended.  This is the invariant of
    reading a record: what is read so far has only names in front of those still to come. -/
theorem toList_foldl_insert {fields : List (String × Value)} {r : Record}
    (hfields : (fields.map (·.1)).Pairwise (· < ·))
    (hr : ∀ m ∈ r.names, ∀ f ∈ fields, m < f.1) :
    (fields.foldl (fun r f => r.insert f.1 f.2) r).toList = r.toList ++ fields := by
  induction fields generalizing r with
  | nil => exact (List.append_nil _).symm
  | cons f fields ih =>
      rw [List.map_cons, List.pairwise_cons] at hfields
      obtain ⟨hf, hfields⟩ := hfields
      have hbehind : ∀ m ∈ r.names, m < f.1 := fun m hm => hr m hm f (List.mem_cons_self ..)
      rw [List.foldl_cons, ih hfields, toList_insert_of_forall_lt f.2 hbehind, List.append_assoc]
      · rfl
      · -- The names that are there now: the one just put in, and those from before.
        intro m hm g hg
        rcases mem_names_insert.mp hm with rfl | hm
        · exact hf g.1 (List.mem_map_of_mem hg)
        · exact hr m hm g (List.mem_cons_of_mem _ hg)

/-- A record in order is made again of its fields. -/
theorem ofList_toList {r : Record} (h : r.Ordered) : ofList r.toList = r :=
  toList_injective (toList_foldl_insert h.pairwise nofun)

end Record

mutual

/-- **A value** that can be stored is read back.  By recursion on the value; a record goes through
    the row of its parts, which is read from the front into an empty record. -/
theorem Value.ofForm?_toForm : ∀ v : Value, v.Ordered → v.Finite → Value.ofForm? v.toForm = some v
  | .scalar s, _, hfinite => Value.ofForm?_of_scalar (s.ofForm?_toForm hfinite)
  | .record r, hordered, hfinite => by
      have hparts := Record.withParts?_formParts r .nil hordered hfinite
      rw [Value.toForm, Value.ofForm?, hparts, Option.map_some]
      exact congrArg (fun q => some (Value.record q)) (Record.ofList_toList hordered)

/-- The parts of a record are read as its fields, one after the other, into whatever is there.  Only
    at the end is the row of insertions seen to be the record itself (`ofList_toList`). -/
theorem Record.withParts?_formParts : ∀ r into : Record, r.Ordered → r.Finite →
    into.withParts? r.formParts = some (r.toList.foldl (fun q f => q.insert f.1 f.2) into)
  | .nil, _, _, _ => rfl
  | .cons n v rest, into, hordered, hfinite => by
      obtain ⟨hv, _, hrest⟩ := hordered
      rw [Record.formParts, Record.withParts?, v.ofForm?_toForm hv hfinite.1]
      exact rest.withParts?_formParts (into.insert n v) hrest hfinite.2

end

theorem Value.Storable.ofForm?_eq {v : Value} (h : v.Storable) :
    Value.ofForm? v.toForm = some v := v.ofForm?_toForm h.ordered h.finite

/-- **A record** that can be stored is read back, its fields in their order. -/
theorem Record.ofForm?_toForm {r : Record} (h : (Value.record r).Storable) :
    Record.ofForm? r.toForm = some r := by
  have hparts := r.withParts?_formParts .nil h.ordered h.finite
  show Record.withParts? .nil r.formParts = some r
  rw [hparts]
  exact congrArg some (ofList_toList h.ordered)

/-! ## Types -/

theorem ScalarType.ofName?_name (t : ScalarType) : ScalarType.ofName? t.name = some t := by
  cases t <;> rfl

mutual

/-- **A type** is read back: a scalar one by its name, a record by the entries of its shape. -/
theorem ValueType.ofForm?_toForm : ∀ t : ValueType, ValueType.ofForm? t.toForm = some t
  | .scalar t => by
      rw [ValueType.toForm, ValueType.ofForm?, t.ofName?_name]
      rfl
  | .record s => by
      rw [ValueType.toForm, ValueType.ofForm?, if_pos rfl, s.ofItems?_formItems]
      rfl

/-- The entries of a shape are read back as its fields, in their order. -/
theorem Shape.ofItems?_formItems : ∀ s : Shape, Shape.ofItems? s.formItems = some s
  | .nil => rfl
  | .cons n t rest => by
      -- An entry is an object of a name and a type; the type may again hold a shape.
      have hname : Form.required Form.str? [("name", .str n), ("type", t.toForm)] "name"
          = some n := rfl
      have htype : ValueType.ofParts? [("name", .str n), ("type", t.toForm)] = some t := by
        rw [ValueType.ofParts?, if_neg (by decide), ValueType.ofParts?, if_pos rfl]
        exact t.ofForm?_toForm
      rw [Shape.formItems, Shape.ofItems?, hname, htype, rest.ofItems?_formItems]

end

/-- **A shape** is read back. -/
theorem Shape.ofForm?_toForm (s : Shape) : Shape.ofForm? s.toForm = some s :=
  s.ofItems?_formItems

end Verdict
