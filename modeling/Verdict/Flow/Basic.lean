/-
  Flows — steps in order, each one a call of a table or of another flow.

  1. **Data** — a step binds every input field of its target to a SOURCE: a field of the flow's
     input, the result of an earlier step or a field inside it, or a constant.  Behind its result
     a step may have a gate, a condition whose paths begin with the names of steps.  The outputs
     of a flow are sources again.

  2. **Signatures** — what a flow needs to know of a target: its input shape, its output type, and
     how deep flows are nested in it.

  Core only.
-/
import Verdict.FieldTest

namespace Verdict

/-- What a step calls. -/
inductive Target where
  | table (id : String)
  | flow (id : String)
  deriving DecidableEq

/-- A target as messages name it. -/
def Target.text : Target → String
  | table id => "table `" ++ id ++ "`"
  | flow id => "orchestrator `" ++ id ++ "`"

/-- Where a value comes from. -/
inductive Source where
  /-- A field of the flow's input. -/
  | input (field : String)
  /-- The result of a step, or what is found at a path inside it. -/
  | step (name : String) (path : Option FieldPath)
  /-- A fixed value. -/
  | constant (value : Value)

/-- A source as messages name it. -/
def Source.text : Source → String
  | input field => "input." ++ field
  | step name none => name
  | step name (some path) => name ++ "." ++ path.text
  | constant value => value.text

/-- An input field of a target, and the source of its value. -/
structure Binding where
  field : String
  source : Source

/-- One step of a flow. -/
structure Step where
  name : String
  target : Target
  inputs : List Binding
  /-- What has to hold once the step has its result. -/
  gate : Option FieldCondition
  /-- What is reported when the gate does not hold. -/
  gateMessage : Option String
  /-- How many milliseconds the step may take. -/
  budget : Option UInt64

/-- One field of a flow's output. -/
structure Output where
  name : String
  type : ValueType
  source : Source

/-- A flow. -/
structure Flow where
  id : String
  input : Shape
  steps : List Step
  outputs : List Output

/-- The shape that a flow declares for its output. -/
def Flow.outputShape (flow : Flow) : Shape :=
  Shape.ofList (flow.outputs.map fun o => (o.name, o.type))

/-- What a caller sees of a target. -/
structure Signature where
  input : Shape
  output : ValueType
  /-- How deep flows are nested in the target, itself included; zero for a table. -/
  nestingDepth : Nat
  deriving DecidableEq

end Verdict
