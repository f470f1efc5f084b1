/-
  Settings — limits, a deadline for every run, and where events go.

  1. **Data** — three sections: the limits under which definitions are admitted, the deadline of
     runs, and the sink for events with the path of its log.

  2. **Specification** — `Settings.check`, in the order in which objections are reported: each limit
     lies between one and its ceiling, so does the deadline if there is one, and the sink has a
     path exactly if it is a log.  A path is measured without the blanks around it.

  3. **Fail closed** — settings are used only after they passed, and opening the sink looks at the
     same path that was checked.

  Core only.
-/
import Verdict.Check
import Verdict.Limits
import Verdict.Run.Control
import Verdict.Text.Blank
import Verdict.Text.Path

namespace Verdict

/-- Where events go. -/
inductive Sink where
  | none
  | stderr
  | jsonl
  deriving DecidableEq, Repr

/-- The name of a sink. -/
def Sink.name : Sink → String
  | none => "none"
  | stderr => "stderr"
  | jsonl => "jsonl"

/-- The sink with a given name. -/
def Sink.ofName? (s : String) : Option Sink := [none, stderr, jsonl].find? (·.name == s)

/-- Settings. -/
structure Settings where
  limits : Limits
  /-- How many milliseconds a run may take. -/
  deadline : Option Nat
  sink : Sink
  path : Option String
  deriving DecidableEq

namespace Settings

/-- The settings that apply unless others are set. -/
def default : Settings := ⟨.default, none, .none, none⟩

/-! ## Ceilings -/

/-- The greatest limits that can be set. -/
def ceilings : Limits :=
  { maxRules := 65536
    maxSteps := 4096
    maxNestingDepth := 64
    maxConditionDepth := 256
    maxConditionNodes := 65536 }

/-- The longest deadline that can be set, in milliseconds: one day. -/
def maxDeadline : Nat := 24 * 60 * 60 * 1000

/-- The most bytes of a path. -/
def maxPathBytes : Nat := 4096

/-- The most bytes of a component of a path. -/
def maxComponentBytes : Nat := 255

/-- The most bytes of a settings file. -/
def maxFileBytes : Nat := 1024 * 1024

/-! ## Errors -/

/-- What is too long: a path, or one of its components. -/
inductive Excess where
  | path
  | component
  deriving DecidableEq, Repr

/-- What is wrong with settings. -/
inductive Defect where
  | zero (field : String)
  | aboveCeiling (field : String) (ceiling : Nat)
  | logWithoutPath
  | pathWithoutLog
  | emptyLogPath
  | longLogPath (excess : Excess)
  | longFilePath (excess : Excess)
  | fileTooLarge
  | fileNotText
  deriving DecidableEq

/-- The wording of a defect. -/
def Defect.text : Defect → String
  | zero field => field ++ " must be greater than zero"
  | aboveCeiling field ceiling => field ++ s!" must be at most {ceiling}"
  | logWithoutPath => "audit.path is required for the jsonl sink"
  | pathWithoutLog => "audit.path is only valid for the jsonl sink"
  | emptyLogPath => "audit.path must be non-empty"
  | longLogPath .path => "audit.path exceeds max length"
  | longLogPath .component => "audit.path path component too long"
  | longFilePath .path => "config path exceeds max length"
  | longFilePath .component => "config path component too long"
  | fileTooLarge => "config file exceeds size limit"
  | fileNotText => "config file must be utf-8"

/-- Why there are no settings. -/
inductive Error where
  /-- A file cannot be read or written. -/
  | io
  /-- The text is no document, or a document of something else. -/
  | parse
  | invalid (defect : Defect)
  deriving DecidableEq

/-- The report of invalid settings. -/
def Defect.message (d : Defect) : String := "invalid config: " ++ d.text

/-! ## Checking -/

/-- Checks that a number lies between one and a ceiling. -/
def checkRange (field : String) (n ceiling : Nat) : Except Defect Unit := do
  ensure (n != 0) (.zero field)
  ensure (n ≤ ceiling) (.aboveCeiling field ceiling)

/-- Checks the limits. -/
def checkLimits (limits : Limits) : Except Defect Unit := do
  checkRange "limits.max_rules" limits.maxRules ceilings.maxRules
  checkRange "limits.max_steps" limits.maxSteps ceilings.maxSteps
  checkRange "limits.max_nesting_depth" limits.maxNestingDepth ceilings.maxNestingDepth
  checkRange "limits.max_condition_depth" limits.maxConditionDepth ceilings.maxConditionDepth
  checkRange "limits.max_condition_nodes" limits.maxConditionNodes ceilings.maxConditionNodes

/-- What is too long about a path. -/
def excess? (path : String) : Option Excess :=
  if maxPathBytes < path.utf8ByteSize then some .path
  else if (Text.pathComponents path).any (maxComponentBytes < ·.utf8ByteSize) then
    some .component
  else none

/-- Checks the path of a log, without the blanks around it. -/
def checkLogPath (path : String) : Except Defect Unit := do
  ensure (!path.isEmpty) .emptyLogPath
  forbid ((excess? path).map .longLogPath)

/-- Checks the sink and its path. -/
def checkSink : Sink → Option String → Except Defect Unit
  | .jsonl, some path => checkLogPath (Text.trim path)
  | .jsonl, none => .error .logWithoutPath
  | _, some _ => .error .pathWithoutLog
  | _, none => .ok ()

/-- Checks settings. -/
def check (s : Settings) : Except Defect Unit := do
  checkLimits s.limits
  match s.deadline with
  | some deadline => checkRange "run.deadline_ms" deadline maxDeadline
  | none => pure ()
  checkSink s.sink s.path

/-! ## Use -/

/-- The deadline of runs as a span of time. -/
def runDeadline (s : Settings) : Option Run.Duration := s.deadline.map Run.Duration.milliseconds

/-- Opens the sink, where `openable` says which files can be opened. -/
def openSink (s : Settings) (openable : String → Bool) : Except Error Unit :=
  match s.sink, s.path with
  | .jsonl, some path => ensure (openable (Text.trim path)) .io
  | .jsonl, none => .error (.invalid .logWithoutPath)
  | _, _ => .ok ()

end Settings

end Verdict
