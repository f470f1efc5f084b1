/-
  Growth of registries — what one admission adds, and what it leaves alone.

  1. **One admission** — `register` refuses a definition, or adds it under its own name and touches
     NOTHING else: every other table, flow and signature is what it was (`AddsOnly`).

  2. **Many submissions** — `Within`: all that is registered in one registry is registered in
     another one, under the same names.  A registry is within every one that it grows into
     (`within_ofDefinitions`).

  3. **Definitions** — `definition?` forgets what admission has found out of a flow.  What is left
     is what was submitted, and nothing else.
-/
import Verdict.Proofs.Registry.History

namespace Verdict

/-- The name that a definition takes, as a target. -/
def Definition.target : Definition → Target
  | .table t => .table t.id
  | .flow f => .flow f.id

namespace Registry

/-- Admits a definition. -/
def register (r : Registry) : Definition → Except DefinitionError Registry
  | .table t => r.addTable t
  | .flow flow => r.addFlow flow

/-- The definition that is registered under a name. -/
def definition? (r : Registry) : Target → Option Definition
  | .table id => (r.tables.get? id).map .table
  | .flow id => (r.flows.get? id).map (.flow ·.flow)

/-! ## One admission -/

/-- A registry with one definition more, and otherwise the same. -/
structure AddsOnly (r : Registry) (d : Definition) (r' : Registry) : Prop where
  /-- The name of the definition was free. -/
  fresh : r.definition? d.target = none
  added : r'.definition? d.target = some d
  tables : ∀ id, .table id ≠ d.target → r'.tables.get? id = r.tables.get? id
  flows : ∀ id, .flow id ≠ d.target → r'.flows.get? id = r.flows.get? id
  signatures : ∀ target, target ≠ d.target → r'.signature? target = r.signature? target
  limits : r'.limits = r.limits

/-- What one admission does, by the kind of the definition. -/
theorem register_cases {r r' : Registry} {d : Definition} (h : r.register d = .ok r') :
    (∃ t, d = .table t ∧ r.tables.get? t.id = none ∧ t.check r.limits = .ok ()
        ∧ r' = { r with tables := r.tables.insert t.id t })
      ∨ ∃ flow facts, d = .flow flow ∧ r.flows.get? flow.id = none
        ∧ flow.check r.signature? r.limits = .ok facts
        ∧ r' = { r with flows := r.flows.insert flow.id ⟨flow, facts⟩ } := by
  cases d with
  | table t =>
      obtain ⟨hnew, hcheck, hr'⟩ := addTable_eq_ok_iff.mp h
      exact Or.inl ⟨t, rfl, hnew, hcheck, hr'⟩
  | flow flow =>
      obtain ⟨hnew, facts, hcheck, hr'⟩ := addFlow_eq_ok_iff.mp h
      exact Or.inr ⟨flow, facts, rfl, hnew, hcheck, hr'⟩

/-- The signature of a target is that of what stands under its name. -/
theorem signature?_congr {r r' : Registry} {target : Target}
    (htables : ∀ id, target = .table id → r'.tables.get? id = r.tables.get? id)
    (hflows : ∀ id, target = .flow id → r'.flows.get? id = r.flows.get? id) :
    r'.signature? target = r.signature? target := by
  cases target with
  | table id => rw [signature?, signature?, htables id rfl]
  | flow id => rw [signature?, signature?, hflows id rfl]

/-- **One admission** adds one definition, and all other names stand for what they stood for: in
    their own directory because the new name is another one, in the other directory because
    nothing is done there. -/
theorem register_addsOnly {r r' : Registry} {d : Definition} (h : r.register d = .ok r') :
    r.AddsOnly d r' := by
  have hother : ∀ {α : Type} {dir : Directory α} {x : α} {id name : String}, id ≠ name →
      (dir.insert name x).get? id = dir.get? id := by
    intro α dir x id name hne
    rw [Directory.get?_insert, if_neg hne.symm]
  rcases register_cases h with ⟨t, rfl, hnew, _, rfl⟩ | ⟨flow, facts, rfl, hnew, _, rfl⟩
  · -- A table: of the signatures only that of its own name may be another one.
    have htables : ∀ id, .table id ≠ Target.table t.id →
        (r.tables.insert t.id t).get? id = r.tables.get? id :=
      fun id hne => hother fun heq => hne (congrArg Target.table heq)
    refine ⟨?_, ?_, htables, fun _ _ => rfl, fun target hne => ?_, rfl⟩
    · rw [Definition.target, definition?, hnew, Option.map_none]
    · rw [Definition.target, definition?, Directory.get?_insert, if_pos rfl, Option.map_some]
    · refine signature?_congr (fun id hid => htables id ?_) fun _ _ => rfl
      rw [← hid]
      exact hne
  · -- A flow, in the same way.
    have hflows : ∀ id, .flow id ≠ Target.flow flow.id →
        (r.flows.insert flow.id ⟨flow, facts⟩).get? id = r.flows.get? id :=
      fun id hne => hother fun heq => hne (congrArg Target.flow heq)
    refine ⟨?_, ?_, fun _ _ => rfl, hflows, fun target hne => ?_, rfl⟩
    · rw [Definition.target, definition?, hnew, Option.map_none]
    · rw [Definition.target, definition?, Directory.get?_insert, if_pos rfl, Option.map_some]
    · refine signature?_congr (fun _ _ => rfl) fun id hid => hflows id ?_
      rw [← hid]
      exact hne

/-! ## Submissions -/

theorem submit_of_refused {r : Registry} {d : Definition} {e : DefinitionError}
    (h : r.register d = .error e) : r.submit d = r := by
  cases d with
  | table t =>
      rw [register] at h
      rw [submit, h]
  | flow flow =>
      rw [register] at h
      rw [submit, h]

theorem submit_of_admitted {r r' : Registry} {d : Definition} (h : r.register d = .ok r') :
    r.submit d = r' := by
  cases d with
  | table t =>
      rw [register] at h
      rw [submit, h]
  | flow flow =>
      rw [register] at h
      rw [submit, h]

/-! ## Many submissions -/

/-- All that is registered here is registered there, under the same names. -/
structure Within (r r' : Registry) : Prop where
  tables : ∀ id t, r.tables.get? id = some t → r'.tables.get? id = some t
  flows : ∀ id f, r.flows.get? id = some f → r'.flows.get? id = some f

theorem Within.refl (r : Registry) : r.Within r := ⟨fun _ _ h => h, fun _ _ h => h⟩

/-- One submission more: nothing that was there is given up for it. -/
theorem Within.submit {r r' : Registry} (h : r.Within r') (d : Definition) :
    r.Within (r'.submit d) where
  tables id t ht := tables_submit d (h.tables id t ht)
  flows id f hf := flows_submit d (h.flows id f hf)

theorem within_foldl (r : Registry) (ds : List Definition) : r.Within (ds.foldl submit r) :=
  List.foldlRecOn ds submit (.refl r) fun _ h d _ => h.submit d

/-- **Nothing is lost**, whatever is submitted afterwards. -/
theorem within_ofDefinitions (limits : Limits) (ds more : List Definition) :
    (ofDefinitions limits ds).Within (ofDefinitions limits (ds ++ more)) := by
  rw [ofDefinitions, ofDefinitions, List.foldl_append]
  exact within_foldl _ more

theorem limits_foldl (r : Registry) (ds : List Definition) :
    (ds.foldl submit r).limits = r.limits :=
  List.foldlRecOn (motive := fun q => q.limits = r.limits) ds submit rfl
    fun q hq d _ => (limits_submit q d).trans hq

theorem limits_ofDefinitions (limits : Limits) (ds : List Definition) :
    (ofDefinitions limits ds).limits = limits :=
  limits_foldl (empty limits) ds

end Registry

end Verdict
