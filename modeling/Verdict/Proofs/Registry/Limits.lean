/-
  Limits — what a registry keeps for all that is registered in it.

  1. **Specification** — `Keeps`: every registered table, and every registered flow, is within
     some limits, its conditions and gates included.

  2. **Theorem** — a sound registry keeps its own limits (`Sound.keeps`), and with them all that
     are wider (`Keeps.mono`).
-/
import Verdict.Proofs.Registry.Closure
import Verdict.Proofs.Registry.Growth
import Verdict.Proofs.Table.WellFormed

namespace Verdict

/-- Limits none of which exceeds the corresponding other one. -/
structure Limits.AtMost (limits wider : Limits) : Prop where
  rules : limits.maxRules ≤ wider.maxRules
  steps : limits.maxSteps ≤ wider.maxSteps
  nestingDepth : limits.maxNestingDepth ≤ wider.maxNestingDepth
  conditionDepth : limits.maxConditionDepth ≤ wider.maxConditionDepth
  conditionNodes : limits.maxConditionNodes ≤ wider.maxConditionNodes

/-- A condition within the limits. -/
structure FieldCondition.Keeps (c : FieldCondition) (limits : Limits) : Prop where
  depth : c.depth ≤ limits.maxConditionDepth
  nodes : c.size ≤ limits.maxConditionNodes

namespace Registry

/-- All that is registered is within the limits. -/
structure Keeps (r : Registry) (limits : Limits) : Prop where
  rules : ∀ id t, r.tables.get? id = some t → t.rules.length ≤ limits.maxRules
  conditions : ∀ id t, r.tables.get? id = some t → ∀ rule ∈ t.rules, rule.condition.Keeps limits
  steps : ∀ id f, r.flows.get? id = some f → f.flow.steps.length ≤ limits.maxSteps
  nestingDepth : ∀ id f, r.flows.get? id = some f →
    f.facts.nestingDepth ≤ limits.maxNestingDepth
  gates : ∀ id f, r.flows.get? id = some f → ∀ step ∈ f.flow.steps, ∀ gate,
    step.gate = some gate → gate.Keeps limits

end Registry

/-! ## Wider limits -/

/-- A condition within some limits is within all wider ones. -/
theorem FieldCondition.Keeps.mono {c : FieldCondition} {limits wider : Limits}
    (h : c.Keeps limits) (hle : limits.AtMost wider) : c.Keeps wider where
  depth := Nat.le_trans h.depth hle.conditionDepth
  nodes := Nat.le_trans h.nodes hle.conditionNodes

/-- What is within some limits is within all wider ones, limit by limit. -/
theorem Registry.Keeps.mono {r : Registry} {limits wider : Limits} (h : r.Keeps limits)
    (hle : limits.AtMost wider) : r.Keeps wider where
  rules id t ht := Nat.le_trans (h.rules id t ht) hle.rules
  conditions id t ht rule hrule := (h.conditions id t ht rule hrule).mono hle
  steps id f hf := Nat.le_trans (h.steps id f hf) hle.steps
  nestingDepth id f hf := Nat.le_trans (h.nestingDepth id f hf) hle.nestingDepth
  gates id f hf step hstep gate hgate := (h.gates id f hf step hstep gate hgate).mono hle

/-! ## Admitted definitions -/

/-- The bounds of a condition are what is checked of it, whoever owns it. -/
theorem FieldCondition.keeps_iff_checkBounds {c : FieldCondition} {limits : Limits}
    (owner : ConditionOwner) : c.Keeps limits ↔ c.checkBounds owner limits = .ok () := by
  rw [checkBounds_eq_ok_iff]
  exact ⟨fun h => ⟨h.depth, h.nodes⟩, fun h => ⟨h.1, h.2⟩⟩

/-- **A sound registry** keeps its limits.  Each part was checked when its definition was admitted;
    of a flow the nesting depth is the one the registry has on record. -/
theorem Registry.Sound.keeps {r : Registry} (h : r.Sound) : r.Keeps r.limits where
  rules := by
    intro id t ht
    obtain ⟨_, hfew, _⟩ := Table.check_eq_ok_iff.mp (h.table id t ht).2
    exact hfew
  conditions := by
    intro id t ht rule hrule
    obtain ⟨_, _, _, _, _, hrules⟩ := Table.check_eq_ok_iff.mp (h.table id t ht).2
    obtain ⟨hbounds, _⟩ := Table.checkRule_eq_ok_iff.mp (hrules rule hrule)
    exact (FieldCondition.keeps_iff_checkBounds _).mpr hbounds
  steps := by
    intro id f hf
    obtain ⟨_, hfew, _⟩ := Flow.check_eq_ok_iff.mp (h.flow id f hf).2
    exact hfew
  nestingDepth := h.grounded.nestingDepth_le
  gates := by
    intro id f hf step hstep gate hgate
    obtain ⟨index, hindex⟩ := List.getElem?_of_mem hstep
    obtain ⟨_, _, _, hadmitted, _⟩ := (h.admitted hf).step index step hindex
    obtain ⟨hbounds, _⟩ := Flow.checks_of_checkGate (hadmitted.gate gate hgate)
    exact (FieldCondition.keeps_iff_checkBounds _).mpr hbounds

/-- **Every history** under some limits keeps them, whatever was submitted. -/
theorem Registry.keeps_ofDefinitions (limits : Limits) (ds : List Definition) :
    (ofDefinitions limits ds).Keeps limits := by
  have hkept := (sound_ofDefinitions limits ds).keeps
  rwa [limits_ofDefinitions] at hkept

end Verdict
