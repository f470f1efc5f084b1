/-
  Closed registries — whatever a registered flow calls is registered, and no call leads back.

  1. **Calls** — `Calls caller target`: the caller is a registered flow, and the target is that of
     one of its steps.

  2. **Depth** — a table has depth zero, a registered flow the nesting depth that its admission has
     found out.  Every call leads to a target of SMALLER depth (`Sound.depth_lt`), which is why
     calls never go round in a circle.

  3. **Theorem** — `Grounded` collects what holds of every sound registry: targets are registered,
     there are no cycles, and the stored depths and result types are those of the targets as they
     stand in the registry now.
-/
import Mathlib.Logic.Relation
import Verdict.Proofs.Registry.History

namespace Verdict

namespace Registry

/-! ## Calls and depths -/

/-- The flow `caller` has a step that calls the target. -/
def Calls (r : Registry) (caller target : Target) : Prop :=
  ∃ id f step, caller = .flow id ∧ r.flows.get? id = some f ∧ step ∈ f.flow.steps
    ∧ step.target = target

/-- How deep flows are nested in a target, itself included. -/
def depth (r : Registry) : Target → Nat
  | .table _ => 0
  | .flow id => (r.flows.get? id).elim 0 (·.facts.nestingDepth)

/-- What stands in a registry stands there on the ground of what it calls. -/
structure Grounded (r : Registry) : Prop where
  registered : ∀ caller target, r.Calls caller target → (r.signature? target).isSome = true
  acyclic : ∀ target, ¬ Relation.TransGen r.Calls target target
  nestingDepth_eq : ∀ id f, r.flows.get? id = some f → f.facts.nestingDepth
    = 1 + (f.flow.steps.map fun step => r.depth step.target).foldr max 0
  nestingDepth_le : ∀ id f, r.flows.get? id = some f →
    f.facts.nestingDepth ≤ r.limits.maxNestingDepth
  stepOutputs_eq : ∀ id f, r.flows.get? id = some f → f.facts.stepOutputs.map some
    = f.flow.steps.map fun step => (r.signature? step.target).map (·.output)

section

variable {r : Registry}

/-- The depth of a target is the one that its signature tells. -/
theorem depth_of_signature? (target : Target) :
    (r.signature? target).elim 0 (·.nestingDepth) = r.depth target := by
  cases target with
  | table id =>
      rw [signature?, depth]
      cases r.tables.get? id <;> rfl
  | flow id =>
      rw [signature?, depth]
      cases r.flows.get? id <;> rfl

/-- The target of a step is registered, and nested less deep than the flow. -/
theorem Sound.registered (hr : r.Sound) {id : String} {f : AdmittedFlow}
    (hf : r.flows.get? id = some f) {step : Step} (hstep : step ∈ f.flow.steps) :
    ∃ s, r.signature? step.target = some s ∧ s.nestingDepth + 1 ≤ f.facts.nestingDepth := by
  obtain ⟨index, hindex⟩ := List.getElem?_of_mem hstep
  obtain ⟨s, hs, hdepth, _⟩ := (hr.admitted hf).step index step hindex
  exact ⟨s, hs, hdepth⟩

/-! ## No cycles -/

/-- **Every call leads deeper down.**  Admission gave the flow one level more than its deepest
    target had then, and targets have kept their depths since. -/
theorem Sound.depth_lt (hr : r.Sound) {caller target : Target} (h : r.Calls caller target) :
    r.depth target < r.depth caller := by
  obtain ⟨id, f, step, rfl, hf, hstep, rfl⟩ := h
  obtain ⟨s, hs, hdepth⟩ := hr.registered hf hstep
  rw [← depth_of_signature? step.target, hs, depth, hf]
  exact hdepth

/-- So does every row of calls; from a target back to itself it would make a number smaller than
    itself. -/
theorem Sound.depth_lt_of_transGen (hr : r.Sound) {caller target : Target}
    (h : Relation.TransGen r.Calls caller target) : r.depth target < r.depth caller := by
  induction h with
  | single hcall => exact hr.depth_lt hcall
  | tail _ hcall ih => exact Nat.lt_trans (hr.depth_lt hcall) ih

/-! ## The ground of a registry -/

/-- **Sound registries are grounded.**  Every field is read off the checks that the registered flows
    pass against the registry as it is: the walk over the steps of each one, with its targets, its
    depth and what it produces. -/
theorem Sound.grounded (hr : r.Sound) : r.Grounded where
  registered := by
    rintro _ _ ⟨id, f, step, rfl, hf, hstep, rfl⟩
    obtain ⟨s, hs, _⟩ := hr.registered hf hstep
    rw [hs, Option.isSome_some]
  acyclic := fun _ hcycle => Nat.lt_irrefl _ (hr.depth_lt_of_transGen hcycle)
  nestingDepth_eq := by
    -- The walk starts at one level, which is no more than what it arrives at.
    intro id f hf
    obtain ⟨_, _, _, _, hsteps, _⟩ := Flow.check_eq_ok_iff.mp (hr.flow id f hf).2
    have hdeepest : Flow.deepest r.signature? f.flow.steps
        = (f.flow.steps.map fun step => r.depth step.target).foldr max 0 := by
      simp only [Flow.deepest, depth_of_signature?]
    have hdepth := hsteps.depth_eq Nat.one_pos
    omega
  nestingDepth_le := by
    intro id f hf
    obtain ⟨hsome, _, _, _, hsteps, _⟩ := Flow.check_eq_ok_iff.mp (hr.flow id f hf).2
    exact hsteps.depth_le_max hsome
  stepOutputs_eq := by
    intro id f hf
    obtain ⟨_, _, _, produced, hsteps, _, _, _, _, htypes⟩ :=
      Flow.check_eq_ok_iff.mp (hr.flow id f hf).2
    rw [htypes, List.map_map, ← List.nil_append (f.flow.steps.map _)]
    exact hsteps.outputs_eq

end

end Registry

end Verdict
