/-
  Definition errors — why a table or a flow is not admitted.

  1. **Data** — one constructor for each rule of admission that can be broken.  Where a rule
     concerns several sorts of things, the OWNER says which of them broke it.

  2. **Program** — `message` words the report.

  Core only.
-/
import Verdict.Flow.Basic
import Verdict.Shape.Conformance
import Verdict.Table.Basic

namespace Verdict

/-! ## Owners -/

/-- Whose shape it is. -/
inductive ShapeOwner where
  | tableInput (table : String)
  | flowInput (flow : String)
  | flowOutput (flow : String)

/-- The owner of a shape, as messages name it. -/
def ShapeOwner.text : ShapeOwner → String
  | tableInput table => "table `" ++ table ++ "` input"
  | flowInput flow => "orchestrator `" ++ flow ++ "` input"
  | flowOutput flow => "orchestrator `" ++ flow ++ "` output"

/-- What reads a source in a flow. -/
inductive SourceReader where
  | binding (step field : String)
  | gate (step : String)
  | output (field : String)

/-- The reader of a source, as messages name it. -/
def SourceReader.text : SourceReader → String
  | binding step field => "step `" ++ step ++ "` field `" ++ field ++ "`"
  | gate step => "gate of step `" ++ step ++ "`"
  | output field => "output `" ++ field ++ "`"

/-- Whose condition it is. -/
inductive ConditionOwner where
  | rule (id table : String)
  | gate (step flow : String)

/-- The owner of a condition, as messages name it. -/
def ConditionOwner.text : ConditionOwner → String
  | rule id table => "rule `" ++ id ++ "` in table `" ++ table ++ "`"
  | gate step flow => (SourceReader.gate step).text ++ " in `" ++ flow ++ "`"

/-! ## Errors -/

/-- Why the result of a rule does not fit its table. -/
inductive ResultDefect where
  | literalMisfit (kind : Kind) (output : ValueType)
  | linearOutput (output : ValueType)
  | notFinite
  | operandNotNumeric (field : FieldPath) (type : ValueType)
  | operandUndeclared (field : FieldPath)

/-- The wording of a result's defect. -/
def ResultDefect.message : ResultDefect → String
  | literalMisfit kind output => kind.name ++ " literal does not fit output type " ++ output.text
  | linearOutput output => "linear results require a float output, found " ++ output.text
  | notFinite => "linear coefficients must be finite"
  | operandNotNumeric field type =>
      "linear operand `" ++ field.text ++ "` is " ++ type.text ++ ", not numeric"
  | operandUndeclared field =>
      "linear operand `" ++ field.text ++ "` is not a declared input field"

/-- Why a definition is not admitted. -/
inductive DefinitionError where
  | duplicateTable (table : String)
  | duplicateFlow (flow : String)
  | emptyTable (table : String)
  | tooManyRules (table : String) (count max : Nat)
  | duplicateRule (table rule : String)
  | badShape (owner : ShapeOwner) (defect : ShapeDefect)
  | outputNotScalar (table : String)
  | invalidResult (table rule : String) (defect : ResultDefect)
  | unknownTestField (owner : ConditionOwner) (path : FieldPath)
  | testRejected (owner : ConditionOwner) (test : FieldTest) (reason : TestRejection)
  | conditionOutOfBounds (owner : ConditionOwner) (excess : Condition.BoundsError)
  | emptyFlow (flow : String)
  | tooManySteps (flow : String) (count max : Nat)
  | nestingTooDeep (flow : String) (depth max : Nat)
  | invalidStepName (flow step : String)
  | duplicateStep (flow step : String)
  | zeroBudget (flow step : String)
  | messageWithoutGate (flow step : String)
  | unknownTarget (flow step : String) (target : Target)
  | unknownBindingField (flow step field : String)
  | duplicateBinding (flow step field : String)
  | missingBinding (flow step field : String)
  | unknownInputField (flow : String) (reader : SourceReader) (field : String)
  | forwardReference (flow : String) (reader : SourceReader) (step : String)
  | unknownStep (flow : String) (reader : SourceReader) (step : String)
  | invalidStepPath (flow : String) (reader : SourceReader) (step : String) (path : FieldPath)
  | sourceMismatch (flow : String) (reader : SourceReader) (expected found : ValueType)
  | duplicateOutput (flow field : String)

namespace DefinitionError

/-- A step of a flow, as messages name it. -/
def stepIn (flow step : String) : String := "step `" ++ step ++ "` in `" ++ flow ++ "`"

/-- What reads a source, and in which flow. -/
def readerIn (flow : String) (reader : SourceReader) : String :=
  reader.text ++ " in `" ++ flow ++ "`"

/-- The report of a definition that is not admitted. -/
def message : DefinitionError → String
  | duplicateTable table => "duplicate table identifier: " ++ table
  | duplicateFlow flow => "duplicate orchestrator identifier: " ++ flow
  | emptyTable table => "table `" ++ table ++ "` must declare at least one rule"
  | tooManyRules table count max => "table `" ++ table ++ s!"` declares {count} rules (max {max})"
  | duplicateRule table rule =>
      "table `" ++ table ++ "` declares rule `" ++ rule ++ "` more than once"
  | badShape owner (.duplicateField path) =>
      owner.text ++ " declares field `" ++ dotted path ++ "` more than once"
  | badShape owner (.invalidFieldName path) =>
      owner.text ++ " declares field `" ++ dotted path ++ "`, which is not an identifier"
  | outputNotScalar table => "table `" ++ table ++ "` output must be a scalar type"
  | invalidResult table rule defect =>
      (ConditionOwner.rule rule table).text ++ ": " ++ defect.message
  | unknownTestField owner path =>
      owner.text ++ ": `" ++ path.text ++ "` does not name a declared field"
  | testRejected owner test reason =>
      owner.text ++ ": predicate `" ++ test.text ++ "` is ill-typed: " ++ reason.message
  | conditionOutOfBounds owner excess => owner.text ++ ": " ++ excess.message
  | emptyFlow flow => "orchestrator `" ++ flow ++ "` must declare at least one step"
  | tooManySteps flow count max =>
      "orchestrator `" ++ flow ++ s!"` declares {count} steps (max {max})"
  | nestingTooDeep flow depth max =>
      "orchestrator `" ++ flow ++ s!"` nests {depth} levels deep (max {max})"
  | invalidStepName flow step =>
      "orchestrator `" ++ flow ++ "` declares step `" ++ step ++ "`, which is not an identifier"
  | duplicateStep flow step =>
      "orchestrator `" ++ flow ++ "` declares step `" ++ step ++ "` more than once"
  | zeroBudget flow step => stepIn flow step ++ " declares a zero time budget"
  | messageWithoutGate flow step => stepIn flow step ++ " declares a gate message but no gate"
  | unknownTarget flow step target => stepIn flow step ++ " targets unknown " ++ target.text
  | unknownBindingField flow step field =>
      stepIn flow step ++ " binds unknown target field `" ++ field ++ "`"
  | duplicateBinding flow step field =>
      stepIn flow step ++ " binds field `" ++ field ++ "` more than once"
  | missingBinding flow step field =>
      stepIn flow step ++ " does not bind target field `" ++ field ++ "`"
  | unknownInputField flow reader field =>
      readerIn flow reader ++ " reads undeclared input field `" ++ field ++ "`"
  | forwardReference flow reader step =>
      readerIn flow reader ++ " reads step `" ++ step ++ "` before it has run"
  | unknownStep flow reader step =>
      readerIn flow reader ++ " reads undeclared step `" ++ step ++ "`"
  | invalidStepPath flow reader step path =>
      readerIn flow reader ++ " reads `" ++ path.text ++ "`, which step `" ++ step
        ++ "` does not produce"
  | sourceMismatch flow reader expected found =>
      readerIn flow reader ++ " expects " ++ expected.text ++ ", source provides " ++ found.text
  | duplicateOutput flow field =>
      "orchestrator `" ++ flow ++ "` declares output `" ++ field ++ "` more than once"

end DefinitionError

end Verdict
