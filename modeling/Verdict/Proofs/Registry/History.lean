/-
  Histories of registries — what holds after any row of admissions and refusals.

  1. **Data** — a `Definition` is a table or a flow.  `ofDefinitions` submits a row of them to an
     empty registry, one after the other; a REFUSED one leaves the registry as it is and the row
     goes on.

  2. **Growth** — a submission changes nothing of what is registered (`signature?_submit`), so
     what was found under a name is found under it ever after.

  3. **Invariant** — `Registry.Sound`: every registered table passes its check, and every
     registered flow passes its check AGAINST THE REGISTRY AS IT IS NOW.  The check was made
     against an earlier one; growth carries it over.

  Core only.
-/
import Verdict.Proofs.Flow.Admission
import Verdict.Proofs.Table.Typing
import Verdict.Registry

namespace Verdict

/-- What is submitted to a registry. -/
inductive Definition where
  | table (t : Table)
  | flow (flow : Flow)

namespace Registry

/-- The registry after a submission. -/
def submit (r : Registry) : Definition → Registry
  | .table t =>
      match r.addTable t with
      | .ok r' => r'
      | .error _ => r
  | .flow flow =>
      match r.addFlow flow with
      | .ok r' => r'
      | .error _ => r

/-- The registry after a row of submissions to an empty one. -/
def ofDefinitions (limits : Limits) (ds : List Definition) : Registry :=
  ds.foldl submit (empty limits)

/-! ## Single admissions -/

/-- A table is admitted under a free name, if it passes its check. -/
theorem addTable_eq_ok_iff {r r' : Registry} {t : Table} :
    r.addTable t = .ok r' ↔
      r.tables.get? t.id = none ∧ t.check r.limits = .ok ()
        ∧ r' = { r with tables := r.tables.insert t.id t } := by
  simp only [addTable, bind_eq_ok_iff, ensure_eq_ok_iff, Option.isNone_iff_eq_none]
  constructor
  · rintro ⟨_, hnew, _, hcheck, h⟩
    cases h
    exact ⟨hnew, hcheck, rfl⟩
  · rintro ⟨hnew, hcheck, rfl⟩
    exact ⟨(), hnew, (), hcheck, rfl⟩

/-- A flow is admitted under a free name, if it passes its check against what is registered; what
    the check finds out is kept with it. -/
theorem addFlow_eq_ok_iff {r r' : Registry} {flow : Flow} :
    r.addFlow flow = .ok r' ↔
      r.flows.get? flow.id = none ∧ ∃ facts, flow.check r.signature? r.limits = .ok facts
        ∧ r' = { r with flows := r.flows.insert flow.id ⟨flow, facts⟩ } := by
  simp only [addFlow, bind_eq_ok_iff, ensure_eq_ok_iff, Option.isNone_iff_eq_none]
  constructor
  · rintro ⟨_, hnew, facts, hcheck, h⟩
    cases h
    exact ⟨hnew, facts, hcheck, rfl⟩
  · rintro ⟨hnew, facts, hcheck, rfl⟩
    exact ⟨(), hnew, facts, hcheck, rfl⟩

/-- **What one submission can do**: it is refused, or adds one table or one flow under a name that
    was free.  All that is said of histories is read off these three cases. -/
theorem submit_cases (r : Registry) (d : Definition) :
    r.submit d = r
      ∨ (∃ t, r.tables.get? t.id = none ∧ t.check r.limits = .ok ()
          ∧ r.submit d = { r with tables := r.tables.insert t.id t })
      ∨ (∃ flow facts, r.flows.get? flow.id = none ∧ flow.check r.signature? r.limits = .ok facts
          ∧ r.submit d = { r with flows := r.flows.insert flow.id ⟨flow, facts⟩ }) := by
  cases d with
  | table t =>
      rw [submit]
      cases h : r.addTable t with
      | error e => exact Or.inl rfl
      | ok r' =>
          obtain ⟨hnew, hcheck, rfl⟩ := addTable_eq_ok_iff.mp h
          exact Or.inr (Or.inl ⟨t, hnew, hcheck, rfl⟩)
  | flow flow =>
      rw [submit]
      cases h : r.addFlow flow with
      | error e => exact Or.inl rfl
      | ok r' =>
          obtain ⟨hnew, facts, hcheck, rfl⟩ := addFlow_eq_ok_iff.mp h
          exact Or.inr (Or.inr ⟨flow, facts, hnew, hcheck, rfl⟩)

/-! ## Growth -/

theorem limits_submit (r : Registry) (d : Definition) : (r.submit d).limits = r.limits := by
  rcases r.submit_cases d with h | ⟨t, _, _, h⟩ | ⟨flow, facts, _, _, h⟩ <;> rw [h]

/-- An entry under a name that was taken stays when another name is taken. -/
theorem get?_insert_of_some {α : Type} {d : Directory α} {id name : String} {x y : α}
    (hnew : d.get? name = none) (h : d.get? id = some x) : (d.insert name y).get? id = some x := by
  have hne : name ≠ id := by
    rintro rfl
    rw [hnew] at h
    exact nomatch h
  rw [Directory.get?_insert, if_neg hne, h]

/-- A table stays, whatever is submitted: another one of its name is refused. -/
theorem tables_submit {r : Registry} (d : Definition) {id : String} {t : Table}
    (h : r.tables.get? id = some t) : (r.submit d).tables.get? id = some t := by
  rcases r.submit_cases d with hr | ⟨u, hnew, _, hr⟩ | ⟨flow, facts, _, _, hr⟩ <;> rw [hr]
  · exact h
  · exact get?_insert_of_some hnew h
  · exact h

/-- A flow stays as well, with the facts that were found out when it was admitted. -/
theorem flows_submit {r : Registry} (d : Definition) {id : String} {f : AdmittedFlow}
    (h : r.flows.get? id = some f) : (r.submit d).flows.get? id = some f := by
  rcases r.submit_cases d with hr | ⟨u, _, _, hr⟩ | ⟨flow, facts, hnew, _, hr⟩ <;> rw [hr]
  · exact h
  · exact h
  · exact get?_insert_of_some hnew h

/-- **Nothing is rebound.**  A target that has a signature keeps it. -/
theorem signature?_submit {r : Registry} (d : Definition) {target : Target} {s : Signature}
    (h : r.signature? target = some s) : (r.submit d).signature? target = some s := by
  cases target with
  | table id =>
      obtain ⟨t, ht, hs⟩ := Option.map_eq_some_iff.mp h
      exact Option.map_eq_some_iff.mpr ⟨t, tables_submit d ht, hs⟩
  | flow id =>
      obtain ⟨f, hf, hs⟩ := Option.map_eq_some_iff.mp h
      exact Option.map_eq_some_iff.mpr ⟨f, flows_submit d hf, hs⟩

/-! ## The invariant -/

/-- Every registered definition stands under its own name and passes its check, a flow against the
    registry as it is. -/
structure Sound (r : Registry) : Prop where
  table : ∀ id t, r.tables.get? id = some t → t.id = id ∧ t.check r.limits = .ok ()
  flow : ∀ id f, r.flows.get? id = some f →
    f.flow.id = id ∧ f.flow.check r.signature? r.limits = .ok f.facts

theorem Sound.empty (limits : Limits) : (empty limits).Sound := ⟨nofun, nofun⟩

/-- **One submission** keeps the invariant.  Tables are checked by themselves.  A flow was checked
    against a smaller registry: the targets of its steps have kept their signatures, and a check
    asks about nothing else. -/
theorem Sound.submit {r : Registry} (h : r.Sound) (d : Definition) : (r.submit d).Sound := by
  -- What was checked against the registry before is checked against the grown one.
  have hgrown : ∀ {flow : Flow} {facts : FlowFacts},
      flow.check r.signature? r.limits = .ok facts →
      flow.check (r.submit d).signature? (r.submit d).limits = .ok facts := by
    intro flow facts hcheck
    rw [limits_submit]
    exact Flow.check_of_extends (fun _ _ hs => signature?_submit d hs) hcheck
  constructor
  · -- Tables: a new one has just passed its check, the others had.
    intro id t ht
    rw [limits_submit]
    rcases r.submit_cases d with hr | ⟨u, hnew, hcheck, hr⟩ | ⟨flow, facts, _, _, hr⟩
    · exact h.table id t (hr ▸ ht)
    · rw [hr] at ht
      change (r.tables.insert u.id u).get? id = some t at ht
      rw [Directory.get?_insert] at ht
      split at ht
      · rename_i heq
        cases ht
        exact ⟨heq, hcheck⟩
      · exact h.table id t ht
    · rw [hr] at ht
      exact h.table id t ht
  · -- Flows: one that was there before is checked against the grown registry.
    intro id f hf
    have hbefore : r.flows.get? id = some f →
        f.flow.id = id
          ∧ f.flow.check (r.submit d).signature? (r.submit d).limits = .ok f.facts :=
      fun hf => ⟨(h.flow id f hf).1, hgrown (h.flow id f hf).2⟩
    rcases r.submit_cases d with hr | ⟨u, _, _, hr⟩ | ⟨flow, facts, hnew, hcheck, hr⟩
    · exact hbefore (hr ▸ hf)
    · refine hbefore ?_
      rw [hr] at hf
      exact hf
    · have hfind : (r.flows.insert flow.id ⟨flow, facts⟩).get? id = some f := by
        rw [hr] at hf
        exact hf
      rw [Directory.get?_insert] at hfind
      split at hfind
      · rename_i heq
        cases hfind
        exact ⟨heq, hgrown hcheck⟩
      · exact hbefore hfind

/-- **Every history** ends in a sound registry, admitted and refused submissions alike: the empty
    one is sound, and every submission keeps it so. -/
theorem sound_ofDefinitions (limits : Limits) (ds : List Definition) :
    (ofDefinitions limits ds).Sound :=
  List.foldlRecOn ds submit (.empty limits) fun _ hr d _ => hr.submit d

/-! ## What callers rely on -/

/-- The shapes that a registered target declares are without defects: the input of either was
    checked, the output of a table is a scalar and that of a flow was checked too. -/
theorem Sound.defect?_signature {r : Registry} (h : r.Sound) {target : Target} {s : Signature}
    (hs : r.signature? target = some s) : s.input.defect? = none ∧ s.output.defect? = none := by
  cases target with
  | table id =>
      obtain ⟨t, ht, rfl⟩ := Option.map_eq_some_iff.mp hs
      obtain ⟨_, _, hin, hout, _⟩ := Table.check_eq_ok_iff.mp (h.table id t ht).2
      exact ⟨hin, ValueType.defect?_of_isScalar hout⟩
  | flow id =>
      obtain ⟨f, hf, rfl⟩ := Option.map_eq_some_iff.mp hs
      obtain ⟨_, _, hin, _, _, _, _, hshape, hfacts, _⟩ :=
        Flow.check_eq_ok_iff.mp (h.flow id f hf).2
      refine ⟨hin, ?_⟩
      show f.facts.outputShape.defect? = none
      rw [hfacts, hshape]

/-- A registered flow counts as one level of nesting at least. -/
theorem Sound.nestingDepth_pos {r : Registry} (h : r.Sound) {id : String} {f : AdmittedFlow}
    (hf : r.flows.get? id = some f) : 0 < f.facts.nestingDepth := by
  obtain ⟨_, _, _, _, hsteps, _⟩ := Flow.check_eq_ok_iff.mp (h.flow id f hf).2
  exact hsteps.depth_le

/-- A registered flow is admitted over the registry as it is. -/
theorem Sound.admitted {r : Registry} (h : r.Sound) {id : String} {f : AdmittedFlow}
    (hf : r.flows.get? id = some f) : f.flow.Admitted r.signature? r.limits f.facts :=
  .of_check (h.flow id f hf).2

/-! ## A small history -/

/-- Of age from eighteen years on. -/
def ageTable : Table where
  id := "age"
  input := .cons "years" .int .nil
  output := .bool
  rules :=
    [ { id := "adult"
        condition := .leaf (.compare (.field "years") .greaterThanOrEqual (.int 18))
        result := .literal (.scalar (.bool true)) } ]

/-- Asks the table, and lets nobody pass for whom it does not answer `true`. -/
def gateFlow : Flow where
  id := "gate"
  input := .cons "years" .int .nil
  steps :=
    [ { name := "adult"
        target := .table "age"
        inputs := [⟨"years", .input "years"⟩]
        gate := some (.leaf (.truthy (.field "adult")))
        gateMessage := none
        budget := some 100 } ]
  outputs := [⟨"years", .float, .input "years"⟩]

/-- Passes the gate, and answers what it has answered. -/
def visitFlow : Flow where
  id := "visit"
  input := .cons "years" .int .nil
  steps :=
    [ { name := "gate"
        target := .flow "gate"
        inputs := [⟨"years", .input "years"⟩]
        gate := none
        gateMessage := none
        budget := none } ]
  outputs := [⟨"years", .float, .step "gate" (some (.field "years"))⟩]

/-- The table and the flows, each one after its targets. -/
def visitDefinitions : List Definition := [.table ageTable, .flow gateFlow, .flow visitFlow]

/-- What the admission of the outer flow finds out. -/
def admittedVisit : AdmittedFlow where
  flow := visitFlow
  facts :=
    { outputShape := .cons "years" .float .nil
      nestingDepth := 2
      stepOutputs := [.record (.cons "years" .float .nil)] }

theorem visit_registered :
    (ofDefinitions .default visitDefinitions).flows.get? "visit" = some admittedVisit := rfl

end Registry

end Verdict
