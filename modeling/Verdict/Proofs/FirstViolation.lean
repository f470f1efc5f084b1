/-
  The first violation — which departure of a record is reported.

  1. **Order** — `ValueType.Precedes`: a record is gone through field by field, in order of
     declaration and each field to its depth; names that are not declared come after all that are,
     in their own order.  Of two places at most one precedes the other.

  2. **The walk** — it stops at the first field that is missing or does not conform
     (`checkFields_error`); everything before it conforms, so every violation is at this field or
     comes after it (`violates_at_or_after`).  The induction is on the declared type.

  3. **Theorem** — a violation is reported exactly if it is one and all others come after it
     (`check_reports_first`).
-/
import Verdict.Proofs.Violations

namespace Verdict

/-! ## The order of places -/

/-- In a value of the given type, what stands at the first path is gone through before what stands
    at the second. -/
inductive ValueType.Precedes : ValueType → List String → List String → Prop
  | inside {s : Shape} {name : String} {t : ValueType} {p q : List String}
      (declared : s.type? name = some t) (precedes : Precedes t p q) :
      Precedes (.record s) (name :: p) (name :: q)
  | declaration {s : Shape} {name other : String} {p q : List String}
      (order : [name, other].Sublist s.names) : Precedes (.record s) (name :: p) (other :: q)
  | undeclaredLast {s : Shape} {name other : String} {p q : List String}
      (declared : name ∈ s.names) (undeclared : other ∉ s.names) :
      Precedes (.record s) (name :: p) (other :: q)
  | undeclared {s : Shape} {name other : String} {p q : List String} (first : name ∉ s.names)
      (second : other ∉ s.names) (order : name < other) :
      Precedes (.record s) (name :: p) (other :: q)

/-- Of two different names, only one stands before the other. -/
theorem not_sublist_swap {names : List String} (h : names.Nodup) {a b : String}
    (hab : [a, b].Sublist names) : ¬ [b, a].Sublist names := by
  intro hba
  -- Along the names: the first one is used by one of the two rows, by both or by neither.
  induction names with
  | nil => cases hab
  | cons n names ih =>
      obtain ⟨hfresh, hnodup⟩ := List.nodup_cons.mp h
      cases hab with
      | cons _ hab =>
          cases hba with
          | cons _ hba => exact ih hnodup hab hba
          | cons_cons _ hba =>
              exact hfresh (hab.subset (List.mem_cons_of_mem _ (List.mem_cons_self ..)))
      | cons_cons _ hab =>
          have hb := hab.subset (List.mem_cons_self ..)
          cases hba with
          | cons _ hba => exact hfresh (hba.subset (List.mem_cons_of_mem _ (List.mem_cons_self ..)))
          | cons_cons _ _ => exact hfresh hb

/-- **An order**: of two places at most one precedes the other, if no declaration hides another.

    The induction is on the reason for which the first place precedes; the reason for which the
    second one would is then taken apart, and each pair of reasons contradicts itself. -/
theorem ValueType.Precedes.asymm {t : ValueType} (ht : t.Unambiguous) {p q : List String}
    (h : t.Precedes p q) : ¬ t.Precedes q p := by
  induction h with
  | @inside s name u p q declared _ ih =>
      cases ht with
      | record distinct fields =>
          intro hback
          cases hback with
          | inside declared' hback =>
              -- Both are inside the same field, of one type.
              obtain rfl := Option.some.inj (declared.symm.trans declared')
              exact ih (fields _ (Shape.mem_of_type? declared)) hback
          | declaration order => exact not_sublist_swap distinct order order
          | undeclaredLast hname hnot => exact hnot hname
          | undeclared _ _ order => exact String.lt_irrefl _ order
  | @declaration s name other p q order =>
      cases ht with
      | record distinct fields =>
          have hname : name ∈ s.names := order.subset (List.mem_cons_self ..)
          have hother : other ∈ s.names :=
            order.subset (List.mem_cons_of_mem _ (List.mem_cons_self ..))
          intro hback
          cases hback with
          | inside => exact not_sublist_swap distinct order order
          | declaration order' => exact not_sublist_swap distinct order order'
          | undeclaredLast _ hnot => exact hnot hname
          | undeclared hnot _ _ => exact hnot hother
  | @undeclaredLast s name other p q hname hnot =>
      intro hback
      cases hback with
      | inside => exact hnot hname
      | declaration order => exact hnot (order.subset (List.mem_cons_self ..))
      | undeclaredLast hother _ => exact hnot hother
      | undeclared _ hname' _ => exact hname' hname
  | @undeclared s name other p q hname hother order =>
      intro hback
      cases hback with
      | inside => exact String.lt_irrefl _ order
      | declaration order' => exact hother (order'.subset (List.mem_cons_self ..))
      | undeclaredLast hother' _ => exact hother hother'
      | undeclared _ _ order' => exact String.lt_irrefl _ (String.lt_trans order order')

/-! ## The walk -/

/-- All other violations come after this one. -/
def Foremost (t : ValueType) (v : Value) (e : ShapeViolation) : Prop :=
  ∀ e', Violates t v e' → e' = e ∨ t.Precedes e.path e'.path

/-- Fields are searched in order of declaration: where the search stops, a field is missing or does
    not conform, and all fields before it conform.  The induction is along the declaration; the row
    of conforming fields grows by one where the search goes on. -/
theorem Shape.checkFields_error {path : List String} {s : Shape} {r : Record} {e : ShapeViolation}
    (h : s.checkFields path r = .error e) :
    ∃ before name t after, s.toList = before ++ (name, t) :: after
      ∧ (∀ f ∈ before, ∃ v, r.get? f.1 = some v ∧ Conforms f.2 v)
      ∧ (r.get? name = none ∧ e = .missingField (path ++ [name])
          ∨ ∃ v, r.get? name = some v ∧ t.checkAt (path ++ [name]) v = .error e) := by
  induction s with
  | nil => cases h
  | cons n t rest ih =>
      rw [Shape.checkFields] at h
      cases hv : r.get? n with
      | none =>
          -- The field is missing: the search stops here.
          rw [hv] at h
          cases h
          exact ⟨[], n, t, rest.toList, rfl, List.forall_mem_nil _, .inl ⟨hv, rfl⟩⟩
      | some v =>
          rw [hv] at h
          change (t.checkAt (path ++ [n]) v >>= fun _ => rest.checkFields path r) = .error e at h
          cases hcheck : t.checkAt (path ++ [n]) v with
          | error e' =>
              -- The field does not conform: the search stops inside it.
              rw [hcheck] at h
              cases h
              exact ⟨[], n, t, rest.toList, rfl, List.forall_mem_nil _, .inr ⟨v, hv, hcheck⟩⟩
          | ok u =>
              -- The field conforms: it is one more of those before the stop.
              rw [hcheck] at h
              obtain ⟨before, name, t', after, hrow, hbefore, hstop⟩ := ih h
              refine ⟨(n, t) :: before, name, t', after, ?_, ?_, hstop⟩
              · rw [Shape.toList_cons, hrow, List.cons_append]
              · intro f hf
                rcases List.mem_cons.mp hf with rfl | hf
                · exact ⟨v, hv, ValueType.checkAt_eq_ok_iff.mp hcheck⟩
                · exact hbefore f hf

/-- The undeclared field that is found is the first one in the order of names, since the fields of a
    record stand in that order. -/
theorem Shape.undeclared?_eq_some {s : Shape} {r : Record} (hr : r.names.Pairwise (· < ·))
    {name : String} (h : s.undeclared? r = some name) :
    name ∈ r.names ∧ s.type? name = none
      ∧ ∀ other ∈ r.names, s.type? other = none → other = name ∨ name < other := by
  induction r with
  | nil => cases h
  | cons n v rest ih =>
      rw [Record.names_cons, List.pairwise_cons] at hr
      obtain ⟨hn, hrest⟩ := hr
      rw [Record.names_cons]
      rw [Shape.undeclared?] at h
      cases ht : s.type? n with
      | none =>
          -- The first field is undeclared, and all others have greater names.
          rw [ht] at h
          cases h
          refine ⟨List.mem_cons_self .., ht, fun other hother _ => ?_⟩
          rcases List.mem_cons.mp hother with rfl | hother
          · exact .inl rfl
          · exact .inr (hn other hother)
      | some t =>
          -- The first field is declared, so it is none of those in question.
          rw [ht] at h
          obtain ⟨hname, hnone, hleast⟩ := ih hrest h
          refine ⟨List.mem_cons_of_mem _ hname, hnone, fun other hother hundeclared => ?_⟩
          rcases List.mem_cons.mp hother with rfl | hother
          · rw [ht] at hundeclared
            cases hundeclared
          · exact hleast other hother hundeclared

/-- What departs as a whole is reported as such: a value for which the declared type is no record,
    or which is no record itself, has no other violation than its mismatch. -/
theorem foremost_whole {t : ValueType} {v : Value} (hwhole : Whole t v)
    {path : List String} {e : ShapeViolation} (h : t.checkAt path v = .error e) :
    ∃ e', e = e'.behind path ∧ Violates t v e' ∧ Foremost t v e' := by
  have hreport : e = .typeMismatch path t v.kind := by
    cases t with
    | scalar t =>
        rw [ValueType.checkAt] at h
        · split at h
          · cases h
          · cases h
            rfl
        · -- The arm for a record under a record type is not the one taken.
          intro _ _ hrecord
          cases hrecord
    | record s =>
        rcases hwhole with hscalar | ⟨x, rfl⟩
        · cases hscalar
        · cases h
          rfl
  refine ⟨.typeMismatch [] t v.kind, ?_, ?_, fun e' h' => .inl (violates_whole hwhole h')⟩
  · rw [ShapeViolation.behind, List.append_nil]
    exact hreport
  · refine .typeMismatch (meets_root t v) hwhole (Bool.eq_false_iff.mpr fun haccepts => ?_)
    rw [ValueType.checkAt_eq_ok_iff.mpr (ValueType.accepts_iff.mp haccepts)] at h
    cases h

/-- Where the search of the fields has stopped, a violation is at this field or comes after it.

    A violation of a record is a missing field, an undeclared one, or one inside a field
    (`violates_record_cases`).  The fields before the stop are present and conform, which excludes
    the first and the third kind for them; undeclared fields come after all declared ones. -/
theorem violates_at_or_after {s : Shape} {r : Record} {before after : List (String × ValueType)}
    {name : String} {t : ValueType} (hrow : s.toList = before ++ (name, t) :: after)
    (hbefore : ∀ f ∈ before, ∃ v, r.get? f.1 = some v ∧ Conforms f.2 v) {e : ShapeViolation}
    (h : Violates (.record s) (.record r) e) :
    (r.get? name = none ∧ e = .missingField [name])
      ∨ (∃ v e', r.get? name = some v ∧ Violates t v e' ∧ e = e'.behind [name])
      ∨ ∀ p, (ValueType.record s).Precedes (name :: p) e.path := by
  have hnames : s.names = before.map (·.1) ++ name :: after.map (·.1) := by
    unfold Shape.names
    rw [hrow, List.map_append, List.map_cons]
  have hname : name ∈ s.names := by
    rw [hnames]
    exact List.mem_append_right _ (List.mem_cons_self ..)
  -- A declared field is one of those that were passed, the one here, or one that comes after it.
  have hplace : ∀ {other u}, s.type? other = some u →
      (other, u) ∈ before ∨ (other = name ∧ u = t) ∨ [name, other].Sublist s.names := by
    intro other u hu
    have hmem := Shape.mem_of_type? hu
    rw [hrow, List.mem_append, List.mem_cons] at hmem
    rcases hmem with hmem | heq | hmem
    · exact .inl hmem
    · -- the one here
      cases heq
      exact .inr (.inl ⟨rfl, rfl⟩)
    · -- one that comes after it
      have hother : other ∈ after.map (·.1) := List.mem_map.mpr ⟨_, hmem, rfl⟩
      have horder : [name, other].Sublist (name :: after.map (·.1)) :=
        (List.singleton_sublist.mpr hother).cons_cons name
      rw [hnames]
      exact .inr (.inr (horder.trans (List.sublist_append_right _ _)))
  rcases violates_record_cases h with ⟨other, u, hu, hlacks, rfl⟩ | ⟨other, _, hu, rfl⟩
    | ⟨other, u, v, e', hu, hv, hinside, rfl⟩
  · -- A missing field: it was not passed, since those that were passed are present.
    rcases hplace hu with hmem | ⟨rfl, _⟩ | horder
    · obtain ⟨v, hv, _⟩ := hbefore _ hmem
      rw [hlacks] at hv
      cases hv
    · exact .inl ⟨hlacks, rfl⟩
    · exact .inr (.inr fun p => .declaration horder)
  · -- An undeclared field: it comes after every declared one.
    refine .inr (.inr fun p => .undeclaredLast hname fun hother => ?_)
    obtain ⟨u, hu'⟩ := Shape.mem_names_iff.mp hother
    rw [hu] at hu'
    cases hu'
  · -- Inside a field: it was not passed, since those that were passed conform.
    rcases hplace hu with hmem | ⟨rfl, rfl⟩ | horder
    · obtain ⟨w, hw, hconf⟩ := hbefore _ hmem
      obtain rfl : w = v := Option.some.inj (hw.symm.trans hv)
      exact absurd hinside (hconf.not_violates e')
    · exact .inr (.inl ⟨v, e', hv, hinside, rfl⟩)
    · refine .inr (.inr fun p => ?_)
      rw [ShapeViolation.path_behind]
      exact .declaration horder

/-- Where all declared fields conform, the first undeclared one is the foremost violation. -/
theorem foremost_undeclared {s : Shape} {r : Record} (hr : r.names.Pairwise (· < ·))
    (hfields : ∀ f ∈ s.toList, ∃ v, r.get? f.1 = some v ∧ Conforms f.2 v) {name : String}
    (h : s.undeclared? r = some name) :
    Violates (.record s) (.record r) (.unexpectedField [name])
      ∧ Foremost (.record s) (.record r) (.unexpectedField [name]) := by
  obtain ⟨hname, hnone, hleast⟩ := Shape.undeclared?_eq_some hr h
  have hnot : ∀ {other}, s.type? other = none → other ∉ s.names := by
    intro other hother hmem
    obtain ⟨u, hu⟩ := Shape.mem_names_iff.mp hmem
    rw [hother] at hu
    cases hu
  refine ⟨.unexpectedField (meets_root _ _) hname hnone, ?_⟩
  intro e' h'
  rcases violates_record_cases h' with ⟨other, u, hu, hlacks, rfl⟩ | ⟨other, hother, hu, rfl⟩
    | ⟨other, u, v, e'', hu, hv, hinside, rfl⟩
  · -- A missing field: all declared ones are present.
    obtain ⟨v, hv, _⟩ := hfields _ (Shape.mem_of_type? hu)
    rw [hlacks] at hv
    cases hv
  · -- An undeclared field: it is the first one itself, or has a greater name.
    rcases hleast other hother hu with rfl | horder
    · exact .inl rfl
    · exact .inr (.undeclared (hnot hnone) (hnot hu) horder)
  · -- Inside a field: all declared ones conform.
    obtain ⟨w, hw, hconf⟩ := hfields _ (Shape.mem_of_type? hu)
    obtain rfl : w = v := Option.some.inj (hw.symm.trans hv)
    exact absurd hinside (hconf.not_violates e'')

/-- A record fails where its declared fields fail, or, if none does, where a field is undeclared. -/
theorem ValueType.checkAt_record_error {s : Shape} {r : Record} {path : List String}
    {e : ShapeViolation} (h : (ValueType.record s).checkAt path (.record r) = .error e) :
    s.checkFields path r = .error e
      ∨ s.checkFields path r = .ok ()
        ∧ ∃ name, s.undeclared? r = some name ∧ e = .unexpectedField (path ++ [name]) := by
  rw [ValueType.checkAt] at h
  cases hfields : s.checkFields path r with
  | error e₀ =>
      -- A declared field fails, and undeclared ones are not looked for.
      rw [hfields] at h
      cases h
      exact .inl rfl
  | ok u =>
      rw [hfields] at h
      dsimp only [bind, Except.bind] at h
      cases hname : s.undeclared? r with
      | none =>
          -- Every field is declared: the record would have passed.
          rw [hname] at h
          cases h
      | some name =>
          rw [hname] at h
          cases h
          exact .inr ⟨rfl, name, rfl, rfl⟩

/-- **The walk reports the foremost violation**, behind the path at which it began.

    The induction is on the declared type.  For a record it stops at a field that is missing or at
    one that does not conform, where the induction hypothesis gives what is foremost INSIDE the
    field, or else at an undeclared field; what is foremost there is foremost in the record because
    nothing before the stop departs (`violates_at_or_after`). -/
theorem ValueType.checkAt_error {t : ValueType} (ht : t.Unambiguous) {v : Value} (hv : v.Ordered)
    {path : List String} {e : ShapeViolation} (h : t.checkAt path v = .error e) :
    ∃ e', e = e'.behind path ∧ Violates t v e' ∧ Foremost t v e' := by
  induction ht generalizing v path e with
  | @scalar t =>
      have hwhole : Whole (.scalar t) v := .inl rfl
      exact foremost_whole hwhole h
  | @record s distinct _ ih =>
      cases v with
      | scalar x =>
          have hwhole : Whole (.record s) (.scalar x) := .inr ⟨x, rfl⟩
          exact foremost_whole hwhole h
      | record r =>
          rcases checkAt_record_error h with hfields | ⟨hfields, name, hname, rfl⟩
          · -- The search of the declared fields has stopped.
            obtain ⟨before, name, t, after, hrow, hbefore, hstop⟩ := Shape.checkFields_error hfields
            have hmem : (name, t) ∈ s.toList := by
              rw [hrow]
              exact List.mem_append_right _ (List.mem_cons_self ..)
            have htype := (Shape.type?_eq_some_iff distinct).mpr hmem
            have hlater := @violates_at_or_after s r before after name t hrow hbefore
            rcases hstop with ⟨hlacks, rfl⟩ | ⟨v, hfound, hcheck⟩
            · -- The field is missing.
              refine ⟨.missingField [name], rfl, ?_, fun e' h' => ?_⟩
              · exact .missingField (meets_root _ _) htype hlacks
              · rcases hlater h' with ⟨_, heq⟩ | ⟨v, _, hfound, _⟩ | hafter
                · exact .inl heq
                · rw [hlacks] at hfound
                  cases hfound
                · exact .inr (hafter [])
            · -- The violation is inside the field, and foremost there.
              obtain ⟨e', rfl, hviolates, hforemost⟩ :=
                ih (name, t) hmem (Record.Ordered.get? hv hfound) hcheck
              refine ⟨e'.behind [name], (e'.behind_behind path [name]).symm,
                hviolates.field htype hfound, fun e'' h'' => ?_⟩
              rcases hlater h'' with ⟨hlacks, _⟩ | ⟨w, e₁, hw, hinside, rfl⟩ | hafter
              · rw [hfound] at hlacks
                cases hlacks
              · -- Another one inside the same field, which is foremost there by induction.
                obtain rfl := Option.some.inj (hfound.symm.trans hw)
                rcases hforemost e₁ hinside with rfl | hprecedes
                · exact .inl rfl
                · rw [ShapeViolation.path_behind, ShapeViolation.path_behind]
                  exact .inr (.inside htype hprecedes)
              · rw [ShapeViolation.path_behind]
                exact .inr (hafter e'.path)
          · -- All declared fields conform, and some field is undeclared.
            have hconf : ∀ f ∈ s.toList, ∃ v, r.get? f.1 = some v ∧ Conforms f.2 v := by
              intro f hf
              obtain ⟨v, hfound, hok⟩ := Shape.checkFields_eq_ok_iff.mp hfields f hf
              exact ⟨v, hfound, checkAt_eq_ok_iff.mp hok⟩
            exact ⟨.unexpectedField [name], rfl,
              foremost_undeclared (Record.Ordered.pairwise hv) hconf hname⟩

/-! ## The report of a record -/

/-- **The first violation is reported, at its place.**  For a declaration without defects, the check
    of a record fails with a violation exactly if the record departs there as it says and no other
    violation comes before it; and a violation's path can be read back from its text.

    Forward this is the walk (`checkAt_error`).  Backward, a foremost violation and the one that is
    reported both come first, and of two different places only one does (`Precedes.asymm`). -/
theorem Shape.check_reports_first (s : Shape) (r : Record) (hs : s.defect? = none) (hr : r.Ordered)
    (e : ShapeViolation) :
    (s.check r = .error e ↔
        Violates (.record s) (.record r) e ∧ Foremost (.record s) (.record r) e)
      ∧ (s.check r = .error e → e.Spelled) := by
  have hunambiguous : (ValueType.record s).Unambiguous :=
    .of_defect? ((ValueType.defect?_record s).trans hs)
  have hreports : ∀ {e}, s.check r = .error e →
      Violates (.record s) (.record r) e ∧ Foremost (.record s) (.record r) e := by
    intro e h
    have hordered : (Value.record r).Ordered := hr
    obtain ⟨e', rfl, hviolates, hforemost⟩ := ValueType.checkAt_error hunambiguous hordered h
    rw [e'.behind_nil]
    exact ⟨hviolates, hforemost⟩
  refine ⟨⟨hreports, fun ⟨hviolates, hforemost⟩ => ?_⟩, fun h => (hreports h).1.spelled hs⟩
  cases hcheck : s.check r with
  | ok u =>
      -- A record that conforms has no violation at all.
      exact absurd hviolates ((Shape.check_eq_ok_iff.mp hcheck).not_violates e)
  | error e' =>
      obtain ⟨hviolates', hforemost'⟩ := hreports hcheck
      rcases hforemost e' hviolates' with rfl | hprecedes
      · rfl
      · rcases hforemost' e hviolates with rfl | hprecedes'
        · rfl
        · exact absurd hprecedes' (hprecedes.asymm hunambiguous)

/-- An order of a customer. -/
def orderShape : Shape :=
  .cons "customer" (.record (.cons "age" .int .nil)) (.cons "total" .float .nil)

/-- An order without a total, of a customer who has a field too many. -/
def untotalled : Record :=
  .cons "customer"
    (.record (.cons "age" (.scalar (.int 40)) (.cons "nick name" (.scalar (.str "Al")) .nil))) .nil

/-- What is inside the customer comes before the total, although the name is not declared there. -/
theorem check_reports_first_untotalled :
    orderShape.defect? = none ∧ untotalled.Ordered
      ∧ orderShape.check untotalled = .error (.unexpectedField ["customer", "nick name"])
      ∧ Violates (.record orderShape) (.record untotalled) (.missingField ["total"])
      ∧ (ValueType.record orderShape).Precedes ["customer", "nick name"] ["total"]
      ∧ (ShapeViolation.unexpectedField ["customer", "nick name"]).Spelled := by
  have hordered : untotalled.Ordered := by
    refine ⟨⟨trivial, ?_, trivial, nofun, trivial⟩, nofun, trivial⟩
    intro name hname
    rw [List.mem_singleton.mp hname]
    decide
  have hcheck : orderShape.check untotalled = .error (.unexpectedField ["customer", "nick name"]) :=
    rfl
  obtain ⟨hfirst, hspelled⟩ := Shape.check_reports_first orderShape untotalled rfl hordered
    (.unexpectedField ["customer", "nick name"])
  have htotal : Violates (.record orderShape) (.record untotalled) (.missingField ["total"]) :=
    .missingField (meets_root _ _) rfl rfl
  refine ⟨rfl, hordered, hcheck, htotal, ?_, hspelled hcheck⟩
  rcases (hfirst.mp hcheck).2 _ htotal with hsame | hprecedes
  · cases hsame
  · exact hprecedes

end Verdict
