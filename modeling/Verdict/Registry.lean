/-
  Registries — the admitted definitions, and what they can be called for.

  1. **Data** — tables and flows under their names, each flow with the facts that its admission
     found out, and the limits under which definitions are admitted.

  2. **Program** — `addTable` and `addFlow` refuse a name that is taken, then whatever admission
     refuses.  A refusal leaves the registry as it is, and nothing is ever taken out of it.

  3. **Targets** — a flow is admitted against the SIGNATURES of what is registered before it, so
     the targets of a flow are always registered earlier than the flow itself.

  Core only.
-/
import Verdict.Directory
import Verdict.Flow.Admission

namespace Verdict

/-- A flow with what its admission found out. -/
structure AdmittedFlow where
  flow : Flow
  facts : FlowFacts

/-- The signature of a flow: it answers a record. -/
def AdmittedFlow.signature (f : AdmittedFlow) : Signature :=
  ⟨f.flow.input, .record f.facts.outputShape, f.facts.nestingDepth⟩

/-- The signature of a table. -/
def Table.signature (t : Table) : Signature := ⟨t.input, t.output, 0⟩

/-- The admitted definitions. -/
structure Registry where
  tables : Directory Table
  flows : Directory AdmittedFlow
  limits : Limits

namespace Registry

/-- The registry without definitions. -/
def empty (limits : Limits) : Registry := ⟨.empty, .empty, limits⟩

/-- The signature of a registered target. -/
def signature? (r : Registry) : Target → Option Signature
  | .table id => (r.tables.get? id).map Table.signature
  | .flow id => (r.flows.get? id).map AdmittedFlow.signature

/-- Admits a table. -/
def addTable (r : Registry) (t : Table) : Except DefinitionError Registry := do
  ensure (r.tables.get? t.id).isNone (.duplicateTable t.id)
  t.check r.limits
  return { r with tables := r.tables.insert t.id t }

/-- Admits a flow. -/
def addFlow (r : Registry) (flow : Flow) : Except DefinitionError Registry := do
  ensure (r.flows.get? flow.id).isNone (.duplicateFlow flow.id)
  let facts ← flow.check r.signature? r.limits
  return { r with flows := r.flows.insert flow.id ⟨flow, facts⟩ }

end Registry

end Verdict
