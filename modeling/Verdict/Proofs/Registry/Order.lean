/-
  The order of registrations — it decides what is refused, and nothing else.

  1. **Program** — `registerAll` admits a row of definitions one after the other into an empty
     registry, and stops at the first refusal.

  2. **Contents** — a row that was admitted as a whole leaves exactly its own definitions, each one
     under its name (`definition?_registerAll`).  The order of the row is not to be seen there.

  3. **Facts** — what admission finds out of a flow hangs on the signatures of its targets alone.
     Along the nesting, from the tables upwards, it is the same in two registries that hold the
     same definitions (`flow_of_definitions`), whatever was registered when the flow was checked.

  4. **Theorem** — `registerAll_perm`: two orders of one row that are both admitted end in the SAME
     registry.
-/
import Verdict.Proofs.Directory
import Verdict.Proofs.Registry.Closure
import Verdict.Proofs.Registry.Growth
import Verdict.Run.Engine

namespace Verdict

namespace Registry

/-- Admits a row of definitions, one after the other, into an empty registry. -/
def registerAll (limits : Limits) (ds : List Definition) : Except DefinitionError Registry :=
  ds.foldlM register (empty limits)

/-! ## Contents -/

/-- Under any other name stands what stood there. -/
theorem AddsOnly.definition?_of_ne {r r' : Registry} {d : Definition} (h : r.AddsOnly d r')
    {target : Target} (hne : target ≠ d.target) : r'.definition? target = r.definition? target := by
  cases target with
  | table id => rw [definition?, definition?, h.tables id hne]
  | flow id => rw [definition?, definition?, h.flows id hne]

/-- One admission adds the definition to what stands there. -/
theorem AddsOnly.definition?_iff {r r' : Registry} {d : Definition} (h : r.AddsOnly d r')
    {target : Target} {e : Definition} :
    r'.definition? target = some e ↔
      r.definition? target = some e ∨ e = d ∧ e.target = target := by
  by_cases htarget : target = d.target
  · subst htarget
    rw [h.added, h.fresh, Option.some.injEq]
    constructor
    · rintro rfl
      exact Or.inr ⟨rfl, rfl⟩
    · rintro (hold | ⟨rfl, _⟩)
      · exact nomatch hold
      · rfl
  · rw [h.definition?_of_ne htarget]
    constructor
    · exact Or.inl
    · rintro (hold | ⟨rfl, heq⟩)
      · exact hold
      · exact absurd heq.symm htarget

theorem foldlM_register_cons {r r' : Registry} {d : Definition} {ds : List Definition} :
    (d :: ds).foldlM register r = .ok r'
      ↔ ∃ r₁, r.register d = .ok r₁ ∧ ds.foldlM register r₁ = .ok r' := by
  rw [List.foldlM_cons, bind_eq_ok_iff]

/-- **A row that was admitted** leaves what was there, and its own definitions.  By induction along
    the row, from any registry. -/
theorem definition?_foldlM {ds : List Definition} {r r' : Registry}
    (h : ds.foldlM register r = .ok r') {target : Target} {e : Definition} :
    r'.definition? target = some e ↔
      r.definition? target = some e ∨ e ∈ ds ∧ e.target = target := by
  induction ds generalizing r with
  | nil =>
      cases h
      simp
  | cons d ds ih =>
      obtain ⟨r₁, hfirst, hrest⟩ := foldlM_register_cons.mp h
      rw [ih hrest, (register_addsOnly hfirst).definition?_iff, List.mem_cons, or_assoc,
        ← or_and_right]

/-- From the empty registry these are all that there is. -/
theorem definition?_registerAll {limits : Limits} {ds : List Definition} {r : Registry}
    (h : registerAll limits ds = .ok r) {target : Target} {e : Definition} :
    r.definition? target = some e ↔ e ∈ ds ∧ e.target = target := by
  have hempty : (empty limits).definition? target = none := by cases target <;> rfl
  rw [definition?_foldlM h, hempty]
  exact or_iff_right nofun

/-- A row that is admitted as a whole is a history without refusals. -/
theorem foldl_submit_of_foldlM {ds : List Definition} {r r' : Registry}
    (h : ds.foldlM register r = .ok r') : ds.foldl submit r = r' := by
  induction ds generalizing r with
  | nil =>
      cases h
      rfl
  | cons d ds ih =>
      obtain ⟨r₁, hfirst, hrest⟩ := foldlM_register_cons.mp h
      rw [List.foldl_cons, submit_of_admitted hfirst]
      exact ih hrest

/-! ## Facts -/

section

variable {r r' : Registry} (hr : r.Sound) (hr' : r'.Sound) (hlimits : r.limits = r'.limits)
  (hdefs : ∀ target, r.definition? target = r'.definition? target)
include hdefs

theorem tables_of_definitions (id : String) : r.tables.get? id = r'.tables.get? id := by
  have hdef := hdefs (.table id)
  rw [definition?, definition?] at hdef
  exact (Option.map_inj_right fun _ _ heq => Definition.table.inj heq).mp hdef

include hr hr' hlimits

/-- **Facts follow from definitions**, for flows of less than `n` levels of nesting.  The induction
    is on `n`: a check depends on the signatures of the targets alone, and these are tables, or
    flows of less depth, for which the facts are known to be the same. -/
theorem flow_of_definitions (n : Nat) {id : String} {f : AdmittedFlow}
    (hf : r.flows.get? id = some f) (hdepth : f.facts.nestingDepth < n) :
    r'.flows.get? id = some f := by
  induction n generalizing id f with
  | zero => exact absurd hdepth (Nat.not_lt_zero _)
  | succ n ih =>
      -- The flow itself is there; its facts are to be compared.
      have hdef : r'.definition? (.flow id) = some (.flow f.flow) := by
        rw [← hdefs, definition?, hf, Option.map_some]
      obtain ⟨⟨flow, facts⟩, hf', heq⟩ := Option.map_eq_some_iff.mp hdef
      cases heq
      -- Its targets lie deeper, so they have the same signatures in both registries.
      have hagrees : ∀ step ∈ f.flow.steps, ∀ s,
          r.signature? step.target = some s → r'.signature? step.target = some s := by
        intro step hstep s hs
        obtain ⟨s', hs', hless⟩ := hr.registered hf hstep
        cases hs.symm.trans hs'
        generalize step.target = target at hs
        cases target with
        | table name =>
            -- A table's signature is in its definition.
            obtain ⟨t, ht, rfl⟩ := Option.map_eq_some_iff.mp hs
            exact Option.map_eq_some_iff.mpr ⟨t, tables_of_definitions hdefs name ▸ ht, rfl⟩
        | flow name =>
            obtain ⟨g, hg, rfl⟩ := Option.map_eq_some_iff.mp hs
            have hg' := ih hg (Nat.lt_of_lt_of_le hless (Nat.lt_succ_iff.mp hdepth))
            exact Option.map_eq_some_iff.mpr ⟨g, hg', rfl⟩
      have hcheck := Flow.check_of_agrees hagrees (hr.flow id f hf).2
      have hcheck' := (hr'.flow id _ hf').2
      rw [← hlimits] at hcheck'
      cases hcheck.symm.trans hcheck'
      exact hf'

/-- So the two registries have the same flows, facts included. -/
theorem flows_of_definitions (id : String) : r.flows.get? id = r'.flows.get? id := by
  cases hf : r.flows.get? id with
  | some f => exact (flow_of_definitions hr hr' hlimits hdefs _ hf (Nat.lt_succ_self _)).symm
  | none =>
      have hdef : r'.definition? (.flow id) = none := by
        rw [← hdefs, definition?, hf, Option.map_none]
      exact (Option.map_eq_none_iff.mp hdef).symm

end

/-! ## Registries as sets -/

/-- Tables and flows stand in ascending order of their names. -/
structure Ascending (r : Registry) : Prop where
  tables : r.tables.Ascending
  flows : r.flows.Ascending

theorem Ascending.submit {r : Registry} (h : r.Ascending) (d : Definition) :
    (r.submit d).Ascending := by
  rcases r.submit_cases d with hr | ⟨t, _, _, hr⟩ | ⟨flow, facts, _, _, hr⟩ <;> rw [hr]
  · exact h
  · exact ⟨h.tables.insert t.id t, h.flows⟩
  · exact ⟨h.tables, h.flows.insert flow.id ⟨flow, facts⟩⟩

theorem ascending_ofDefinitions (limits : Limits) (ds : List Definition) :
    (ofDefinitions limits ds).Ascending :=
  List.foldlRecOn ds Registry.submit ⟨.empty, .empty⟩ fun _ hr d _ => hr.submit d

/-- **A registry is known by its definitions**, if it has come about by submissions.  Tables are
    their definitions, the facts of flows follow from them, and the directories are sets. -/
theorem eq_of_definitions {limits : Limits} {ds ds' : List Definition}
    (hdefs : ∀ target, (ofDefinitions limits ds).definition? target
      = (ofDefinitions limits ds').definition? target) :
    ofDefinitions limits ds = ofDefinitions limits ds' := by
  have hr := sound_ofDefinitions limits ds
  have hr' := sound_ofDefinitions limits ds'
  have hasc := ascending_ofDefinitions limits ds
  have hasc' := ascending_ofDefinitions limits ds'
  have hlimits : (ofDefinitions limits ds).limits = (ofDefinitions limits ds').limits := by
    rw [limits_ofDefinitions, limits_ofDefinitions]
  have htables := hasc.tables.ext hasc'.tables (tables_of_definitions hdefs)
  have hflows := hasc.flows.ext hasc'.flows (flows_of_definitions hr hr' hlimits hdefs)
  generalize ofDefinitions limits ds = r at hlimits hflows htables ⊢
  generalize ofDefinitions limits ds' = r' at hlimits hflows htables ⊢
  cases r
  cases r'
  cases htables
  cases hflows
  cases hlimits
  rfl

/-- **The order of registrations does not matter.**  If two orders of a row of definitions are both
    admitted as a whole, then they end in the same registry; so it admits, evaluates and runs the
    same.  The facts were found out against different registries on the two ways, and are the same
    in the end. -/
theorem registerAll_perm {limits : Limits} {ds ds' : List Definition} {r r' : Registry}
    (hperm : ds.Perm ds') (h : registerAll limits ds = .ok r)
    (h' : registerAll limits ds' = .ok r') :
    r = r' ∧ (∀ later, r.register later = r'.register later)
      ∧ ∀ {σ : Type} (env : Run.Surroundings σ) (id : String) (input : Record) (s : σ),
          Run.evaluate env r id input s = Run.evaluate env r' id input s
            ∧ ∀ control, Run.run env r id input control s = Run.run env r' id input control s := by
  have hdefs : ∀ target, r.definition? target = r'.definition? target := by
    intro target
    refine Option.ext fun d => ?_
    rw [definition?_registerAll h, definition?_registerAll h', hperm.mem_iff]
  obtain rfl : r = r' := by
    rw [← foldl_submit_of_foldlM h, ← foldl_submit_of_foldlM h'] at hdefs ⊢
    exact eq_of_definitions hdefs
  exact ⟨rfl, fun _ => rfl, fun _ _ _ _ => ⟨rfl, fun _ => rfl⟩⟩

/-- Asks the table, and lets everybody pass. -/
def askFlow : Flow where
  id := "ask"
  input := .cons "years" .int .nil
  steps :=
    [ { name := "adult"
        target := .table "age"
        inputs := [⟨"years", .input "years"⟩]
        gate := none
        gateMessage := none
        budget := none } ]
  outputs := [⟨"adult", .bool, .step "adult" none⟩]

/-- The flow that asks the table is registered before the gate. -/
def askingFirst : List Definition :=
  [.table ageTable, .flow askFlow, .flow gateFlow, .flow visitFlow]

/-- The flow that asks the table is registered after the visit. -/
def askingLast : List Definition :=
  [.table ageTable, .flow gateFlow, .flow visitFlow, .flow askFlow]

/-- It makes no difference. -/
theorem registerAll_perm_asking :
    askingFirst.Perm askingLast
      ∧ registerAll .default askingFirst = .ok (ofDefinitions .default askingFirst)
      ∧ registerAll .default askingLast = .ok (ofDefinitions .default askingLast)
      ∧ ofDefinitions .default askingFirst = ofDefinitions .default askingLast := by
  have hperm : askingFirst.Perm askingLast := by
    refine List.Perm.cons _ ?_
    exact (List.Perm.swap _ _ _).trans ((List.Perm.swap _ _ _).cons _)
  have hfirst : registerAll .default askingFirst = .ok (ofDefinitions .default askingFirst) := rfl
  have hlast : registerAll .default askingLast = .ok (ofDefinitions .default askingLast) := rfl
  exact ⟨hperm, hfirst, hlast, (registerAll_perm hperm hfirst hlast).1⟩

end Registry

end Verdict
