/-
  Assignability — through which declarations a value may flow without being looked at again.

  1. **Two checks** — `ValueType.accepts` walks along a VALUE, `ValueType.acceptsType` compares its
     TYPE.  They count fields differently: the walk looks for missing and then for undeclared
     names, the comparison for equal length and for declared names.  Where no declaration hides
     another one both decide `Conforms` (`checks_agree`).  Records have each name once, in order:
     there are no others, since all of them are made by `Record.insert` (`Record.ordered_ofList`).

  2. **Preorder** — a type accepts itself (`acceptsType_refl`), and what an accepted type accepts
     (`acceptsType_trans`).

  3. **Chains** — along a chain of declarations, each of which accepts the one before it, no value
     is lost (`assignability_sound`).  Only the LAST of them has to be without defects: an accepted
     type has the names of the type that accepts it, so it is unambiguous too
     (`Unambiguous.of_acceptsType`).
-/
import Mathlib.Logic.Relation
import Mathlib.Tactic.TFAE
import Verdict.Proofs.Conformance

namespace Verdict

/-! ## The type of a value -/

mutual

/-- The type of a value in order is unambiguous, be its names identifiers or not. -/
theorem Value.unambiguous_of : ∀ v : Value, v.Ordered → (ValueType.of v).Unambiguous
  | .scalar _, _ => .scalar
  | .record r, hordered => by
      refine .record ?_ (r.unambiguous_fields hordered)
      rw [Shape.names_of]
      exact Record.nodup_names hordered.pairwise

theorem Record.unambiguous_fields : ∀ r : Record, r.Ordered →
    ∀ f ∈ (Shape.of r).toList, f.2.Unambiguous
  | .nil, _ => nofun
  | .cons _ v rest, ⟨hv, _, hrest⟩ =>
      List.forall_mem_cons.mpr ⟨v.unambiguous_of hv, rest.unambiguous_fields hrest⟩

end

/-- A conforming record has as many fields as are declared. -/
theorem Conforms.length_eq {shape : Shape} {r : Record} (distinct : shape.names.Nodup)
    (hordered : r.Ordered) (h : Conforms (.record shape) (.record r)) :
    shape.length = (Shape.of r).length := by
  have hperm : shape.names.Perm r.names := by
    rw [List.perm_ext_iff_of_nodup distinct (Record.nodup_names hordered.pairwise)]
    intro n
    rw [Shape.mem_names_iff]
    cases h with
    | record present fits declared =>
        constructor
        · rintro ⟨t, ht⟩
          exact Record.mem_names_iff.mpr (present _ (Shape.mem_of_type? ht))
        · exact fun hn => Shape.mem_names_iff.mp (declared n hn)
  rw [← Shape.length_names, ← Shape.length_names, Shape.names_of, hperm.length_eq]

/-- An unambiguous type accepts the type of every value that conforms to it.  The fields are looked
    up one by one, and there are as many of them: the names of the two are the same. -/
theorem Conforms.acceptsType_of {t : ValueType} {v : Value} (ht : t.Unambiguous)
    (hordered : v.Ordered) (h : Conforms t v) : t.acceptsType (ValueType.of v) = true := by
  induction t generalizing v with
  | scalar t =>
      cases h with
      | scalar takes => exact takes
  | record s ih =>
      cases h with
      | @record _ r present fits declared =>
          cases ht with
          | record distinct unambiguous =>
              have hlength := length_eq distinct hordered (.record present fits declared)
              refine ValueType.acceptsType_record.mpr ⟨hlength, fun f hf => ?_⟩
              obtain ⟨w, hw⟩ := present f hf
              have hordered_w : w.Ordered := Record.Ordered.get? hordered hw
              refine ⟨ValueType.of w, ?_, ih f hf (unambiguous f hf) hordered_w (fits f hf w hw)⟩
              rw [Shape.type?_of, hw, Option.map_some]

namespace ValueType

/-! ## The preorder -/

/-- An unambiguous type accepts itself. -/
theorem acceptsType_refl {t : ValueType} (ht : t.Unambiguous) : t.acceptsType t = true := by
  induction t with
  | scalar t => exact t.takes_self
  | record s ih =>
      cases ht with
      | record distinct unambiguous =>
          refine acceptsType_record.mpr ⟨rfl, fun f hf => ⟨f.2, ?_, ih f hf (unambiguous f hf)⟩⟩
          exact (Shape.type?_eq_some_iff distinct).mpr hf

/-- **Transitivity.**  What an accepted type accepts is accepted, ambiguous or not.  The induction
    is on the type in front; the other two have the same kind, or one of the checks has failed. -/
theorem acceptsType_trans {t u w : ValueType} (h : t.acceptsType u = true)
    (h' : u.acceptsType w = true) : t.acceptsType w = true := by
  induction t generalizing u w with
  | scalar t =>
      cases u with
      | record s => exact nomatch h
      | scalar u =>
          cases w with
          | record s => exact nomatch h'
          | scalar w => exact ScalarType.takes_trans h h'
  | record s ih =>
      cases u with
      | scalar u => exact nomatch h
      | record source =>
          cases w with
          | scalar w => exact nomatch h'
          | record origin =>
              obtain ⟨hlen, hfields⟩ := acceptsType_record.mp h
              obtain ⟨hlen', hfields'⟩ := acceptsType_record.mp h'
              refine acceptsType_record.mpr ⟨hlen.trans hlen', fun f hf => ?_⟩
              obtain ⟨u, hu, hacc⟩ := hfields f hf
              -- The first field of the name in the middle shape leads on to the last one.
              obtain ⟨w, hw, hacc'⟩ := hfields' _ (Shape.mem_of_type? hu)
              exact ⟨w, hw, ih f hf hacc hacc'⟩

/-- A type that an unambiguous one accepts is unambiguous: it has the same names, so none twice, and
    the type of each of its fields is accepted by that of the field of the same name. -/
theorem Unambiguous.of_acceptsType {t u : ValueType} (ht : t.Unambiguous)
    (h : t.acceptsType u = true) : u.Unambiguous := by
  induction t generalizing u with
  | scalar t =>
      cases u with
      | scalar u => exact .scalar
      | record s => exact nomatch h
  | record s ih =>
      cases u with
      | scalar u => exact nomatch h
      | record source =>
          cases ht with
          | record distinct unambiguous =>
              have hperm := Shape.names_perm_of_acceptsType distinct h
              have hsource : source.names.Nodup := hperm.nodup_iff.mp distinct
              refine .record hsource fun g hg => ?_
              have hname : g.1 ∈ s.names := hperm.mem_iff.mpr (List.mem_map_of_mem hg)
              obtain ⟨f, hf, hfg⟩ := List.mem_map.mp hname
              obtain ⟨u, hu, hacc⟩ := (acceptsType_record.mp h).2 f hf
              -- No other field of the source has this name, so it is the one that was compared.
              have hfound := (Shape.type?_eq_some_iff hsource).mpr hg
              rw [← hfg, hu] at hfound
              cases hfound
              exact ih f hf (unambiguous f hf) hacc

/-! ## Chains -/

/-- From one declaration to another, each one on the way accepts the one before it. -/
def Leads : (source target : ValueType) → Prop :=
  Relation.ReflTransGen fun source target => target.acceptsType source = true

/-- All declarations on the way to an unambiguous one are unambiguous. -/
theorem Unambiguous.of_leads {t u : ValueType} (ht : t.Unambiguous) (h : u.Leads t) :
    u.Unambiguous := by
  induction h with
  | refl => exact ht
  | tail _ last ih => exact ih (ht.of_acceptsType last)

/-- Whatever leads to an unambiguous declaration is accepted by it.  The induction is along the
    chain from its end, where the declarations are known to be unambiguous. -/
theorem Leads.acceptsType {t u : ValueType} (h : u.Leads t) (ht : t.Unambiguous) :
    t.acceptsType u = true := by
  induction h with
  | refl => exact acceptsType_refl ht
  | tail _ last ih => exact acceptsType_trans last (ih (ht.of_acceptsType last))

/-! ## The two checks, and chains of declarations -/

/-- **Two checks, one relation.**  For a type without defects it is the same whether the walk along
    a value accepts it, whether its own type is accepted, and whether it conforms.  And every value
    is accepted by its own type, which may well have names that no declaration can have. -/
theorem checks_agree :
    (∀ (t : ValueType) (v : Value), t.defect? = none → v.Ordered →
        [t.accepts v = true, t.acceptsType (ValueType.of v) = true, Conforms t v].TFAE)
      ∧ ∀ v : Value, v.Ordered →
          (ValueType.of v).accepts v = true
            ∧ (ValueType.of v).acceptsType (ValueType.of v) = true := by
  constructor
  · -- Both checks are compared with conformance.
    intro t v hdefect hordered
    have ht := Unambiguous.of_defect? hdefect
    tfae_have 1 ↔ 3 := accepts_iff
    tfae_have 3 → 2 := fun hconf => hconf.acceptsType_of ht hordered
    tfae_have 2 → 3 := fun hacc => .of_acceptsType_of ht hacc
    tfae_finish
  · -- The type of a value is unambiguous, whatever its names are.
    intro v hordered
    have ht := v.unambiguous_of hordered
    have hself := acceptsType_refl ht
    exact ⟨accepts_iff.mpr (.of_acceptsType_of ht hself), hself⟩

/-- A named point of the plane. -/
def placeType : ValueType :=
  .record (.cons "name" .str
    (.cons "point" (.record (.cons "x" .float (.cons "y" .float .nil))) .nil))

/-- A place on the grid, its fields in order of their names. -/
def place : Record :=
  .ofList [("point", .record (.ofList [("y", .scalar (.int 2)), ("x", .scalar (.int 1))])),
    ("name", .scalar (.str "gate"))]

theorem ordered_place : place.Ordered := by
  refine Record.ordered_ofList
    (List.forall_mem_cons.mpr ⟨?_, List.forall_mem_singleton.mpr trivial⟩)
  exact Record.ordered_ofList
    (List.forall_mem_cons.mpr ⟨trivial, List.forall_mem_singleton.mpr trivial⟩)

/-- The place is walked along, and is accepted by its type and as what it is; so is a record whose
    field no shape could declare. -/
theorem checks_agree_place :
    placeType.defect? = none ∧ (Value.record place).Ordered
      ∧ placeType.acceptsType (ValueType.of (.record place)) = true
      ∧ Conforms placeType (.record place)
      ∧ (ValueType.of (.record place)).accepts (.record place) = true
      ∧ isIdentifier "two words" = false
      ∧ (ValueType.of (.record (.cons "two words" (.record place) .nil))).accepts
          (.record (.cons "two words" (.record place) .nil)) = true := by
  have hagree := checks_agree.1 placeType (.record place) rfl ordered_place
  exact ⟨rfl, ordered_place, (hagree.out 0 1).mp rfl, (hagree.out 0 2).mp rfl,
    (checks_agree.2 (.record place) ordered_place).1, rfl,
    (checks_agree.2 (.record (.cons "two words" (.record place) .nil))
      ⟨ordered_place, nofun, trivial⟩).1⟩

/-- **A sound preorder.**  A type without defects accepts itself, what an accepted type accepts is
    accepted, and so are its values.  So a value that one declaration has accepted is accepted by
    every declaration `t` that it comes to, if the last one on its way is without defects.

    That is why a value needs to be checked once: a binding whose type was found assignable hands
    on what was accepted before. -/
theorem assignability_sound :
    (∀ t : ValueType, t.defect? = none → t.acceptsType t = true)
      ∧ (∀ t s r : ValueType, t.acceptsType s = true → s.acceptsType r = true →
          t.acceptsType r = true)
      ∧ (∀ (t s : ValueType) (v : Value), t.defect? = none → t.acceptsType s = true →
          s.accepts v = true → t.accepts v = true)
      ∧ ∀ (s t last : ValueType) (v : Value), s.Leads t → t.Leads last → last.defect? = none →
          s.accepts v = true → t.accepts v = true := by
  refine ⟨fun t ht => acceptsType_refl (.of_defect? ht), fun t s r => acceptsType_trans,
    fun t s v ht hacc hv => ?_, fun s t last v hbefore hbehind hlast hv => ?_⟩
  · exact accepts_iff.mpr (.of_acceptsType (.of_defect? ht) hacc (accepts_iff.mp hv))
  · have ht : t.Unambiguous := (Unambiguous.of_defect? hlast).of_leads hbehind
    exact accepts_iff.mpr (.of_acceptsType ht (hbefore.acceptsType ht) (accepts_iff.mp hv))

/-- A named point of the grid, its fields declared in another order. -/
def gridType : ValueType :=
  .record (.cons "point" (.record (.cons "y" .int (.cons "x" .int .nil)))
    (.cons "name" .str .nil))

/-- A named point whose first coordinate may lie between the columns. -/
def columnType : ValueType :=
  .record (.cons "name" .str
    (.cons "point" (.record (.cons "x" .float (.cons "y" .int .nil))) .nil))

/-- A place on the grid flows through a declaration that is stricter than the last one. -/
theorem assignability_sound_place :
    gridType.Leads columnType ∧ columnType.Leads placeType ∧ placeType.defect? = none
      ∧ placeType.acceptsType placeType = true ∧ placeType.acceptsType gridType = true
      ∧ gridType.accepts (.record place) = true ∧ columnType.accepts (.record place) = true
      ∧ placeType.accepts (.record place) = true := by
  obtain ⟨hself, htrans, hvalue, hchain⟩ := assignability_sound
  have hfirst : gridType.Leads columnType := .single rfl
  have hsecond : columnType.Leads placeType := .single rfl
  exact ⟨hfirst, hsecond, rfl, hself placeType rfl, htrans placeType columnType gridType rfl rfl,
    rfl, hchain gridType columnType placeType (.record place) hfirst hsecond rfl rfl,
    hvalue placeType columnType (.record place) rfl rfl rfl⟩

end ValueType

end Verdict
