/-
  Coercion — an accepted value as it is stored where its type is declared.

  1. **Exactness** — a conforming value with no integer left under a float declaration has EXACTLY
     the declared type: its own type accepts the declared one, and the other way round
     (`Conforms.type_accepts`).

  2. **Stability** — a coerced value is coerced already (`Value.widenTo_widenTo`), and in order if
     the value was (`Value.Ordered.widenTo`).

  3. **Place by place** — `Value.Stored` compares what is found at one path before and after: only
     an integer can have changed, into its float, and only where a float is declared.  Records have
     kept their names (`Value.stored_widenTo`).

  4. **Theorem** — `coerce_exact` collects this.  Its last part is the law of paths: reading after
     coercing is coercing after reading.  So what is checked about paths into a type holds of a
     result that was coerced as a whole.
-/
import Verdict.Proofs.Assignability

namespace Verdict

/-! ## Widened twice -/

theorem Scalar.widenTo_widenTo (t : ScalarType) (s : Scalar) :
    (s.widenTo t).widenTo t = s.widenTo t := by
  cases s <;> cases t <;> rfl

mutual

/-- What is widened once is widened.  Along the type and the value, with the fields of a record one
    after the other; a field that is not declared is left alone both times. -/
theorem Value.widenTo_widenTo : ∀ (t : ValueType) (v : Value),
    (v.widenTo t).widenTo t = v.widenTo t
  | .scalar t, .scalar s => congrArg Value.scalar (s.widenTo_widenTo t)
  | .scalar _, .record _ => rfl
  | .record _, .scalar _ => rfl
  | .record shape, .record r => congrArg Value.record (Record.widenTo_widenTo shape r)

theorem Record.widenTo_widenTo : ∀ (shape : Shape) (r : Record),
    (r.widenTo shape).widenTo shape = r.widenTo shape
  | _, .nil => rfl
  | shape, .cons n v rest => by
      rw [Record.widenTo, Record.widenTo, Record.widenTo_widenTo shape rest]
      cases shape.type? n with
      | none => rfl
      | some t => exact congrArg (Record.cons n · _) (Value.widenTo_widenTo t v)

end

mutual

/-- Widening leaves every record in the order it was in. -/
theorem Value.Ordered.widenTo : ∀ {v : Value}, v.Ordered → ∀ t, (v.widenTo t).Ordered
  | .scalar _, _, .scalar _ => trivial
  | .scalar _, _, .record _ => trivial
  | .record _, h, .scalar _ => h
  | .record _, h, .record shape => Record.Ordered.widenTo h shape

theorem Record.Ordered.widenTo : ∀ {r : Record}, r.Ordered → ∀ shape, (r.widenTo shape).Ordered
  | .nil, _, _ => trivial
  | .cons n v rest, ⟨hv, hn, hrest⟩, shape => by
      rw [Record.widenTo]
      refine ⟨?_, ?_, Record.Ordered.widenTo hrest shape⟩
      · cases shape.type? n with
        | none => exact hv
        | some t => exact Value.Ordered.widenTo hv t
      · rw [Record.names_widenTo]
        exact hn

end

/-! ## Exactness -/

/-- What is found in a field of a widened record is widened as the field declares. -/
theorem Value.Widened.field {shape : Shape} {r : Record} {name : String} {t : ValueType}
    {v : Value} (h : (Value.record r).Widened (.record shape)) (ht : shape.type? name = some t)
    (hv : r.get? name = some v) : v.Widened t := by
  intro path n hpath hfound
  refine h (name :: path) n ?_ ?_
  · exact Option.bind_eq_some_iff.mpr ⟨t, ht, hpath⟩
  · exact Option.bind_eq_some_iff.mpr ⟨v, hv, hfound⟩

/-- **Exactly typed.**  The type of a conforming value in which nothing is left to widen accepts the
    declared type.  That the declared type takes more is the one thing that would stand in the way,
    and the only type that takes more than itself is the float, which takes integers. -/
theorem Conforms.type_accepts {t : ValueType} {v : Value} (ht : t.Unambiguous)
    (hordered : v.Ordered) (h : Conforms t v) (hwidened : v.Widened t) :
    (ValueType.of v).acceptsType t = true := by
  induction t generalizing v with
  | scalar t =>
      cases h with
      | @scalar _ s takes =>
          show s.type.takes t = true
          cases s with
          | int n =>
              -- An integer may stand under an integer declaration only, since it is widened.
              cases t with
              | int => rfl
              | float => exact absurd rfl (hwidened [] n rfl)
              | bool => exact nomatch takes
              | str => exact nomatch takes
          | bool b => cases t <;> first | rfl | exact nomatch takes
          | float x => cases t <;> first | rfl | exact nomatch takes
          | str s => cases t <;> first | rfl | exact nomatch takes
  | record shape ih =>
      cases ht with
      | record distinct unambiguous =>
          cases h with
          | @record _ r present fits declared =>
              have hnodup : (Shape.of r).names.Nodup := by
                rw [Shape.names_of]
                exact Record.nodup_names hordered.pairwise
              have hlength := length_eq distinct hordered (.record present fits declared)
              refine ValueType.acceptsType_record.mpr ⟨hlength.symm, fun g hg => ?_⟩
              -- A field of the value's type is a field of the value, and a declared one.
              have hfound := (Shape.type?_eq_some_iff hnodup).mpr hg
              rw [Shape.type?_of] at hfound
              obtain ⟨w, hw, hwg⟩ := Option.map_eq_some_iff.mp hfound
              have hname := declared g.1 (Record.mem_names_iff.mpr ⟨w, hw⟩)
              obtain ⟨u, hu⟩ := Shape.mem_names_iff.mp hname
              have hmem := Shape.mem_of_type? hu
              refine ⟨u, hu, ?_⟩
              rw [← hwg]
              exact ih _ hmem (unambiguous _ hmem) (Record.Ordered.get? hordered hw)
                (fits _ hmem w hw) (hwidened.field hu hw)

/-! ## Place by place -/

/-- What stands at one place before and after a value is stored, if `declared` is the type that is
    declared there. -/
inductive Value.Stored (declared : Option ValueType) : (before after : Option Value) → Prop
  /-- There is no such place, neither before nor after. -/
  | nothing : Stored declared none none
  /-- A scalar has stayed what it was. -/
  | kept (s : Scalar) : Stored declared (some (.scalar s)) (some (.scalar s))
  /-- An integer under a float declaration has become a float. -/
  | widened (n : Int64) (float : declared = some .float) :
      Stored declared (some (.scalar (.int n)))
        (some (.scalar (.float (Decimal.ofInt n.toInt))))
  /-- A record has kept the names of its fields. -/
  | record {r r' : Record} (names : r'.names = r.names) :
      Stored declared (some (.record r)) (some (.record r'))

theorem Value.Stored.refl (declared : Option ValueType) (v : Option Value) :
    Value.Stored declared v v := by
  cases v with
  | none => exact .nothing
  | some v =>
      cases v with
      | scalar s => exact .kept s
      | record r => exact .record rfl

/-- **Place by place**, also where nothing is declared: an integer becomes its float where a float
    is declared, and nothing else changes. -/
theorem Value.stored_widenTo (t : ValueType) (v : Value) (path : List String) :
    Value.Stored (t.at? path) (v.at? path) ((v.widenTo t).at? path) := by
  induction path generalizing t v with
  | nil =>
      -- The place is here: only a scalar under a scalar declaration can change.
      cases v with
      | scalar s =>
          cases t with
          | record shape => exact .kept s
          | scalar t =>
              cases s with
              | int n =>
                  cases t with
                  | float => exact .widened n rfl
                  | _ => exact .kept _
              | _ => exact .kept _
      | record r =>
          cases t with
          | scalar t => exact .record rfl
          | record shape => exact .record (Record.names_widenTo shape r)
  | cons name path ih =>
      cases v with
      | scalar s => cases t <;> exact .nothing
      | record r =>
          cases t with
          | scalar t => exact .refl _ _
          | record shape =>
              show Value.Stored ((shape.type? name).bind (·.at? path))
                ((r.get? name).bind (·.at? path))
                (((r.widenTo shape).get? name).bind (·.at? path))
              cases ht : shape.type? name with
              | none =>
                  -- An undeclared field stays as it is, with all that is inside it.
                  rw [Record.get?_widenTo_of_undeclared ht]
                  exact .refl _ _
              | some u =>
                  rw [Record.get?_widenTo ht]
                  cases r.get? name with
                  | none => exact .nothing
                  | some w => exact ih u w

/-! ## Coerced values -/

/-- What a type makes of a value that it accepts. -/
structure ValueType.Coerces (t : ValueType) (v c : Value) : Prop where
  /-- It accepts the result. -/
  accepted : t.accepts c = true
  /-- It accepts the type of the result, -/
  takes_type : t.acceptsType (ValueType.of c) = true
  /-- and the type of the result accepts it: the result is exactly typed. -/
  type_takes : (ValueType.of c).acceptsType t = true
  /-- No integer is left under a float declaration. -/
  widened : c.Widened t
  /-- The result is its own. -/
  stable : t.coerce c = c
  /-- At every place there is what there was, but for integers where floats are declared. -/
  stored : ∀ path, Value.Stored (t.at? path) (v.at? path) (c.at? path)
  /-- Where the type has a path, so has the value, and what is found there was coerced alike. -/
  read : ∀ path ty, t.at? path = some ty →
    ∃ w, v.at? path = some w ∧ c.at? path = some (ty.coerce w)

/-- **Coercion.**  What a type without defects accepts it makes exactly typed, and reading a path
    comes to the same before and after.

    The result is accepted and of exactly the declared type, it is left as it is by another
    coercion, and nothing but integers under float declarations has changed. -/
theorem ValueType.coerce_exact {t : ValueType} {v : Value} (ht : t.defect? = none)
    (hordered : v.Ordered) (h : t.accepts v = true) : t.Coerces v (t.coerce v) := by
  have hunambiguous := Unambiguous.of_defect? ht
  have hconf := accepts_iff.mp h
  have hstored : Conforms t (v.widenTo t) := hconf.widenTo hunambiguous
  have hordered' : (v.widenTo t).Ordered := hordered.widenTo t
  have hwidened := v.widened_widenTo t
  exact
    { accepted := accepts_iff.mpr hstored
      takes_type := hstored.acceptsType_of hunambiguous hordered'
      type_takes := hstored.type_accepts hunambiguous hordered' hwidened
      widened := hwidened
      stable := Value.widenTo_widenTo t v
      stored := Value.stored_widenTo t v
      read := fun path ty hpath => by
        obtain ⟨w, hw, _⟩ := hconf.at? hpath
        refine ⟨w, hw, ?_⟩
        show (v.widenTo t).at? path = _
        rw [Value.at?_widenTo hpath, hw]
        rfl }

/-- A place on the grid is stored as a place in the plane. -/
theorem ValueType.coerce_exact_place :
    placeType.defect? = none ∧ (Value.record place).Ordered
      ∧ placeType.accepts (.record place) = true
      ∧ placeType.Coerces (.record place) (placeType.coerce (.record place)) :=
  ⟨rfl, ordered_place, rfl, coerce_exact rfl ordered_place rfl⟩

end Verdict
