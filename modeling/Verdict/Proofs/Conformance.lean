/-
  Conformance — what it means that a value fits a declared type.

  1. **Specification** — `Conforms`, an inductive relation: a scalar of a type that the declared
     one takes, or a record with EXACTLY the declared names and conforming values under them.

  2. **Checks** — the walk of `Shape.check` along a record decides this relation
     (`checkAt_eq_ok_iff`), wherever the record stands.

  3. **Types for values** — if one type accepts another, it accepts every value of the other
     (`Conforms.of_acceptsType`), and it accepts a value whose own type it accepts
     (`Conforms.of_acceptsType_of`).  Both count fields: as many names as declared, all of them
     found, leave no room for another one.

  4. **Paths and widening** — a path that a declared type has leads to a conforming value
     (`Conforms.at?`), and widening keeps conformance and leaves no integer under a float
     declaration (`Conforms.widenTo`, `widened_widenTo`).
-/
import Mathlib.Data.List.Perm.Subperm
import Verdict.Check
import Verdict.Proofs.Record
import Verdict.Proofs.Shape

namespace Verdict

/-! ## The relation -/

/-- A value fits a declared type. -/
inductive Conforms : ValueType → Value → Prop
  | scalar {t : ScalarType} {s : Scalar} (takes : t.takes s.type = true) :
      Conforms (.scalar t) (.scalar s)
  | record {shape : Shape} {r : Record}
      (present : ∀ f ∈ shape.toList, ∃ v, r.get? f.1 = some v)
      (fits : ∀ f ∈ shape.toList, ∀ v, r.get? f.1 = some v → Conforms f.2 v)
      (declared : ∀ n ∈ r.names, n ∈ shape.names) :
      Conforms (.record shape) (.record r)

/-- A record conforms if under every declared name there is a conforming value. -/
theorem Conforms.ofFields {shape : Shape} {r : Record}
    (fields : ∀ f ∈ shape.toList, ∃ v, r.get? f.1 = some v ∧ Conforms f.2 v)
    (declared : ∀ n ∈ r.names, n ∈ shape.names) : Conforms (.record shape) (.record r) := by
  refine .record (fun f hf => ?_) (fun f hf v hv => ?_) declared
  · obtain ⟨v, hv, _⟩ := fields f hf
    exact ⟨v, hv⟩
  · obtain ⟨w, hw, hconf⟩ := fields f hf
    obtain rfl : w = v := Option.some.inj (hw.symm.trans hv)
    exact hconf

/-- A conforming record holds a conforming value under a declared name. -/
theorem Conforms.get? {shape : Shape} {r : Record} (h : Conforms (.record shape) (.record r))
    {name : String} {t : ValueType} (ht : shape.type? name = some t) :
    ∃ v, r.get? name = some v ∧ Conforms t v := by
  cases h with
  | record present fits _ =>
      have hmem := Shape.mem_of_type? ht
      obtain ⟨v, hv⟩ := present _ hmem
      exact ⟨v, hv, fits _ hmem v hv⟩

/-! ## The checks decide it -/

/-- No field is found undeclared exactly if all names are declared. -/
theorem Shape.undeclared?_eq_none_iff {s : Shape} {r : Record} :
    s.undeclared? r = none ↔ ∀ n ∈ r.names, n ∈ s.names := by
  induction r with
  | nil => exact ⟨fun _ => nofun, fun _ => rfl⟩
  | cons n v rest ih =>
      rw [Record.names_cons, List.forall_mem_cons, Shape.undeclared?, Shape.mem_names_iff]
      cases ht : s.type? n with
      | none => exact ⟨nofun, fun ⟨⟨t, h⟩, _⟩ => nomatch h⟩
      | some t => exact ih.trans ⟨fun h => ⟨⟨t, rfl⟩, h⟩, fun h => h.2⟩

/-- The search of the fields passes exactly if every declared field is there and passes by itself.
    -/
theorem Shape.checkFields_eq_ok_iff {path : List String} {s : Shape} {r : Record} :
    s.checkFields path r = .ok () ↔
      ∀ f ∈ s.toList, ∃ v, r.get? f.1 = some v ∧ f.2.checkAt (path ++ [f.1]) v = .ok () := by
  induction s with
  | nil => exact ⟨fun _ f hf => absurd hf List.not_mem_nil, fun _ => rfl⟩
  | cons n t rest ih =>
      rw [Shape.toList_cons, List.forall_mem_cons, ← ih, Shape.checkFields]
      cases hv : r.get? n with
      | none =>
          -- The field is missing: neither side holds.
          constructor
          · intro h
            cases h
          · rintro ⟨⟨v, h, _⟩, _⟩
            cases h
      | some v =>
          show (t.checkAt (path ++ [n]) v >>= fun _ => rest.checkFields path r) = .ok () ↔ _
          cases hc : t.checkAt (path ++ [n]) v with
          | error e =>
              -- The field is there and fails.
              constructor
              · intro h
                cases h
              · rintro ⟨⟨w, hw, hok⟩, _⟩
                cases hw
                rw [hc] at hok
                cases hok
          | ok u => exact ⟨fun h => ⟨⟨v, rfl, hc⟩, h⟩, fun h => h.2⟩

/-- **The walk decides conformance**, at whatever path the value stands.

    The induction is on the declared type.  A record passes if its declared fields do, which is
    conformance of each of them by induction, and if no other name is found in it. -/
theorem ValueType.checkAt_eq_ok_iff {path : List String} {t : ValueType} {v : Value} :
    t.checkAt path v = .ok () ↔ Conforms t v := by
  induction t generalizing path v with
  | scalar t =>
      cases v with
      | scalar s =>
          show (if t.takes s.type then _ else _) = _ ↔ _
          split
          · rename_i h
            exact ⟨fun _ => .scalar h, fun _ => rfl⟩
          · rename_i h
            refine ⟨nofun, fun hc => ?_⟩
            cases hc with
            | scalar takes => exact absurd takes h
      | record r => exact ⟨nofun, nofun⟩
  | record s ih =>
      cases v with
      | scalar u => exact ⟨nofun, nofun⟩
      | record r =>
          rw [ValueType.checkAt, bind_eq_ok_iff]
          constructor
          · -- It has passed: every declared field conforms, and no name was left over.
            rintro ⟨_, hfields, hrest⟩
            refine .ofFields (fun f hf => ?_) (Shape.undeclared?_eq_none_iff.mp ?_)
            · obtain ⟨v, hv, hok⟩ := Shape.checkFields_eq_ok_iff.mp hfields f hf
              exact ⟨v, hv, (ih f hf).mp hok⟩
            · split at hrest
              · exact nomatch hrest
              · assumption
          · -- It conforms: the fields pass one by one, and then all names are declared.
            intro h
            cases h with
            | record present fits declared =>
                refine ⟨(), Shape.checkFields_eq_ok_iff.mpr fun f hf => ?_, ?_⟩
                · obtain ⟨v, hv⟩ := present f hf
                  exact ⟨v, hv, (ih f hf).mpr (fits f hf v hv)⟩
                · rw [Shape.undeclared?_eq_none_iff.mpr declared]
                  rfl

theorem Shape.check_eq_ok_iff {s : Shape} {r : Record} :
    s.check r = .ok () ↔ Conforms (.record s) (.record r) :=
  ValueType.checkAt_eq_ok_iff

theorem isOk_iff {ε : Type} {x : Except ε Unit} : x.isOk = true ↔ x = .ok () := by
  cases x with
  | error e => exact ⟨nofun, nofun⟩
  | ok u => exact ⟨fun _ => rfl, fun _ => rfl⟩

/-- A type accepts exactly the values that conform to it. -/
theorem ValueType.accepts_iff {t : ValueType} {v : Value} :
    t.accepts v = true ↔ Conforms t v := by
  cases t with
  | scalar t =>
      cases v with
      | scalar s =>
          refine ⟨fun h => .scalar h, fun h => ?_⟩
          cases h with
          | scalar takes => exact takes
      | record r => exact ⟨nofun, nofun⟩
  | record s =>
      cases v with
      | scalar u => exact ⟨nofun, nofun⟩
      | record r => exact isOk_iff.trans Shape.check_eq_ok_iff

/-! ## Types where types are declared -/

theorem Shape.acceptsFields_iff {s source : Shape} :
    s.acceptsFields source = true ↔
      ∀ f ∈ s.toList, ∃ u, source.type? f.1 = some u ∧ f.2.acceptsType u = true := by
  induction s with
  | nil => exact ⟨fun _ f hf => absurd hf List.not_mem_nil, fun _ => rfl⟩
  | cons n t rest ih =>
      rw [Shape.toList_cons, List.forall_mem_cons, ← ih, Shape.acceptsFields, Bool.and_eq_true]
      cases hu : source.type? n with
      | none =>
          constructor
          · intro h
            exact absurd h.1 Bool.false_ne_true
          · rintro ⟨⟨u, h, _⟩, _⟩
            cases h
      | some u =>
          constructor
          · intro h
            exact ⟨⟨u, rfl, h.1⟩, h.2⟩
          · rintro ⟨⟨w, hw, h⟩, hrest⟩
            cases hw
            exact ⟨h, hrest⟩

theorem ValueType.acceptsType_record {s source : Shape} :
    (ValueType.record s).acceptsType (.record source) = true ↔
      s.length = source.length ∧
        ∀ f ∈ s.toList, ∃ u, source.type? f.1 = some u ∧ f.2.acceptsType u = true := by
  rw [ValueType.acceptsType, Bool.and_eq_true, Shape.acceptsFields_iff, beq_iff_eq]

/-- **Counting.**  If all names of a row are different and stand in a row that is no longer, then
    the two rows have the same names. -/
theorem perm_of_subset_of_length {names others : List String} (hn : names.Nodup)
    (hsub : names ⊆ others) (hlen : others.length ≤ names.length) : names.Perm others :=
  (hn.subperm hsub).perm_of_length_le hlen

/-- A shape whose names are all different has the names of every shape that it accepts. -/
theorem Shape.names_perm_of_acceptsType {s source : Shape} (distinct : s.names.Nodup)
    (h : (ValueType.record s).acceptsType (.record source) = true) :
    s.names.Perm source.names := by
  obtain ⟨hlen, hfields⟩ := ValueType.acceptsType_record.mp h
  refine perm_of_subset_of_length distinct (fun n hn => ?_) ?_
  · obtain ⟨f, hf, rfl⟩ := List.mem_map.mp hn
    obtain ⟨u, hu, _⟩ := hfields f hf
    exact Shape.mem_names_iff.mpr ⟨u, hu⟩
  · exact Nat.le_of_eq (by rw [Shape.length_names, Shape.length_names, hlen])

theorem ScalarType.takes_trans {t u w : ScalarType} (h : t.takes u = true) (h' : u.takes w = true) :
    t.takes w = true := by
  revert h h'
  cases t <;> cases u <;> cases w <;> decide

/-- **Types for values.**  An unambiguous type accepts every value of a type that it accepts.

    The comparison of types looks up every declared name in the other type, and besides compares the
    numbers of fields.  That the other type has no further name is by counting, and it is here that
    all names have to be different. -/
theorem Conforms.of_acceptsType {t u : ValueType} {v : Value} (ht : t.Unambiguous)
    (h : t.acceptsType u = true) (hv : Conforms u v) : Conforms t v := by
  induction t generalizing u v with
  | scalar t =>
      cases hv with
      | scalar takes => exact .scalar (ScalarType.takes_trans h takes)
      | record => exact nomatch h
  | record s ih =>
      cases hv with
      | scalar => exact nomatch h
      | @record source r present fits declared =>
          obtain ⟨hlen, hfields⟩ := ValueType.acceptsType_record.mp h
          cases ht with
          | record distinct unambiguous =>
              refine .ofFields (fun f hf => ?_) (fun n hn => ?_)
              · -- A declared field is one of the other type, so the record has it.
                obtain ⟨u, hu, hacc⟩ := hfields f hf
                have hmem := Shape.mem_of_type? hu
                obtain ⟨w, hw⟩ := present _ hmem
                exact ⟨w, hw, ih f hf (unambiguous f hf) hacc (fits _ hmem w hw)⟩
              · -- The two types have the same names.
                have hperm := Shape.names_perm_of_acceptsType distinct h
                exact hperm.mem_iff.mpr (declared n hn)

theorem Shape.type?_of (r : Record) (name : String) :
    (Shape.of r).type? name = (r.get? name).map ValueType.of := by
  induction r with
  | nil => rfl
  | cons n v rest ih =>
      rw [Shape.of, Shape.type?, Record.get?, ih]
      split <;> rfl

theorem Shape.names_of (r : Record) : (Shape.of r).names = r.names := by
  induction r with
  | nil => rfl
  | cons n v rest ih => rw [Shape.of, Shape.names_cons, Record.names_cons, ih]

/-- **The type of a value for the value.**  An unambiguous type accepts a value whose own type it
    accepts.  The argument is the same with the type of the value in the place of the other type;
    its fields are those of the value, be the value in order or not. -/
theorem Conforms.of_acceptsType_of {t : ValueType} {v : Value} (ht : t.Unambiguous)
    (h : t.acceptsType (ValueType.of v) = true) : Conforms t v := by
  induction t generalizing v with
  | scalar t =>
      cases v with
      | scalar s => exact .scalar h
      | record r => exact nomatch h
  | record s ih =>
      cases v with
      | scalar u => exact nomatch h
      | record r =>
          obtain ⟨_, hfields⟩ := ValueType.acceptsType_record.mp h
          cases ht with
          | record distinct unambiguous =>
              refine .ofFields (fun f hf => ?_) (fun n hn => ?_)
              · obtain ⟨u, hu, hacc⟩ := hfields f hf
                rw [Shape.type?_of] at hu
                obtain ⟨v, hv, rfl⟩ := Option.map_eq_some_iff.mp hu
                exact ⟨v, hv, ih f hf (unambiguous f hf) hacc⟩
              · have hperm := Shape.names_perm_of_acceptsType distinct h
                rw [Shape.names_of] at hperm
                exact hperm.mem_iff.mpr hn

/-! ## Paths -/

/-- **Reading a path.**  Where a declared type has a path, a conforming value has it too, and what
    is found there conforms to the type that is declared there.  The induction is on the path. -/
theorem Conforms.at? {path : List String} {t ty : ValueType} {v : Value} (hv : Conforms t v)
    (hty : t.at? path = some ty) : ∃ w, v.at? path = some w ∧ Conforms ty w := by
  induction path generalizing t v with
  | nil =>
      obtain rfl : t = ty := by simpa [ValueType.at?] using hty
      exact ⟨v, by cases v <;> rfl, hv⟩
  | cons name path ih =>
      cases t with
      | scalar t => simp [ValueType.at?] at hty
      | record s =>
          obtain ⟨u, hu, hpath⟩ := Option.bind_eq_some_iff.mp hty
          cases v with
          | scalar s => cases hv
          | record r =>
              obtain ⟨w, hw, hconf⟩ := hv.get? hu
              obtain ⟨x, hx, hxt⟩ := ih hconf hpath
              exact ⟨x, Option.bind_eq_some_iff.mpr ⟨w, hw, hx⟩, hxt⟩

/-! ## Widening -/

/-- A scalar that a type takes has exactly this type after widening. -/
theorem Scalar.type_widenTo {t : ScalarType} {s : Scalar} (h : t.takes s.type = true) :
    (s.widenTo t).type = t := by
  cases s <;> cases t <;> first | rfl | exact nomatch h

theorem ScalarType.takes_self (t : ScalarType) : t.takes t = true := by
  cases t <;> rfl

/-- Widening keeps a value within its declared type, which has to be unambiguous: it would
    otherwise widen a field by a declaration that another one of the same name hides. -/
theorem Conforms.widenTo {t : ValueType} {v : Value} (ht : t.Unambiguous) (hv : Conforms t v) :
    Conforms t (v.widenTo t) := by
  induction t generalizing v with
  | scalar t =>
      cases hv with
      | @scalar _ s takes =>
          have hwide : t.takes (s.widenTo t).type = true := by
            rw [Scalar.type_widenTo takes]
            exact t.takes_self
          exact .scalar hwide
  | record s ih =>
      cases hv with
      | @record _ r present fits declared =>
          cases ht with
          | record distinct unambiguous =>
              refine .ofFields (fun f hf => ?_) (fun n hn => ?_)
              · -- Its field is widened by its own declaration, as no other one has its name.
                obtain ⟨v, hv⟩ := present f hf
                have htype := (Shape.type?_eq_some_iff distinct).mpr hf
                refine ⟨v.widenTo f.2, ?_, ih f hf (unambiguous f hf) (fits f hf v hv)⟩
                rw [Record.get?_widenTo htype, hv]
                rfl
              · rw [Record.names_widenTo] at hn
                exact declared n hn

/-- No integer stands under a float declaration, at any path of the declared type. -/
def Value.Widened (declared : ValueType) (v : Value) : Prop :=
  ∀ path n, declared.at? path = some .float → v.at? path ≠ some (.scalar (.int n))

/-- **Widened.**  Widening leaves no integer under a float declaration: what is found at a path
    after widening is what was found before, widened to the type there. -/
theorem Value.widened_widenTo (declared : ValueType) (v : Value) :
    (v.widenTo declared).Widened declared := by
  intro path n hpath
  rw [Value.at?_widenTo hpath]
  cases v.at? path with
  | none => nofun
  | some w =>
      cases w with
      | scalar s => cases s <;> nofun
      | record r => nofun

end Verdict
