/-
  Reading settings — from their form, from a text and from a file.

  1. **Forms** — settings are an object with the parts `limits`, `run` and `audit`.  All of it may
     be missing and then has its default, but NOTHING ELSE may be there.

  2. **Documents** — how a text spells a form is a matter of the document language.  Its reader is a
     PARAMETER here (`document`): it gives the form that a text spells, or nothing.

  3. **Files** — the path that was asked for counts before that of the environment, and that before
     the default name.  The path is checked before the file is read, the file before its text,
     and the text before the settings in it.

  Core only.
-/
import Verdict.Form.Definition
import Verdict.Settings.Basic

namespace Verdict.Settings

/-! ## Forms -/

/-- The form of a part that is written as null when there is nothing to say. -/
def orNull {α : Type} (write : α → Form) : Option α → Form
  | none => .null
  | some x => write x

/-- The form of settings. -/
def toForm (s : Settings) : Form :=
  .object [("limits", s.limits.toForm),
    ("run", .object [("deadline_ms", orNull (fun n => .int (n : Nat)) s.deadline)]),
    ("audit", .object [("sink", .str s.sink.name), ("path", orNull .str s.path)])]

/-- The parts of an object that has no other parts than these. -/
def onlyParts? (names : List String) (form : Form) : Option (List (String × Form)) :=
  form.parts?.bind fun parts =>
    if parts.all fun p => names.contains p.1 then some parts else none

/-- Reads a part that may be missing, and then has its default. -/
def orDefault {α : Type} (read : Form → Option α) (otherwise : α) (parts : List (String × Form))
    (name : String) : Option α :=
  match Form.part? parts name with
  | none => some otherwise
  | some form => read form

/-- The limits that a form is; those that it does not name have their defaults. -/
def limitsOfForm? (form : Form) : Option Limits := do
  let parts ← onlyParts?
    ["max_rules", "max_steps", "max_nesting_depth", "max_condition_depth", "max_condition_nodes"]
    form
  let limit := fun otherwise name => orDefault Form.natural? otherwise parts name
  let maxRules ← limit Limits.default.maxRules "max_rules"
  let maxSteps ← limit Limits.default.maxSteps "max_steps"
  let maxNestingDepth ← limit Limits.default.maxNestingDepth "max_nesting_depth"
  let maxConditionDepth ← limit Limits.default.maxConditionDepth "max_condition_depth"
  let maxConditionNodes ← limit Limits.default.maxConditionNodes "max_condition_nodes"
  return { maxRules, maxSteps, maxNestingDepth, maxConditionDepth, maxConditionNodes }

/-- The deadline that a form sets. -/
def deadlineOfForm? (form : Form) : Option (Option Nat) := do
  let parts ← onlyParts? ["deadline_ms"] form
  Form.optional Form.natural? parts "deadline_ms"

/-- The sink that a form sets, and the path of its log. -/
def sinkOfForm? (form : Form) : Option (Sink × Option String) := do
  let parts ← onlyParts? ["sink", "path"] form
  let sink ← orDefault (fun form => form.str?.bind Sink.ofName?) .none parts "sink"
  let path ← Form.optional Form.str? parts "path"
  return (sink, path)

/-- The settings that a form is. -/
def ofForm? (form : Form) : Option Settings := do
  let parts ← onlyParts? ["limits", "run", "audit"] form
  let limits ← orDefault limitsOfForm? .default parts "limits"
  let deadline ← orDefault deadlineOfForm? none parts "run"
  let (sink, path) ← orDefault sinkOfForm? (.none, none) parts "audit"
  return { limits, deadline, sink, path }

/-! ## Texts and files -/

/-- The file that is read when no path is given. -/
def defaultPath : String := "rule-gate.toml"

/-- The path of the settings file.  That of the environment is measured before anything else. -/
def choosePath (requested environment : Option String) : Except Error String :=
  match requested, environment with
  | some path, _ => .ok path
  | none, some path =>
      if maxPathBytes < path.utf8ByteSize then .error (.invalid (.longFilePath .path))
      else .ok path
  | none, none => .ok defaultPath

section

variable (document : String → Option Form)

/-- The settings that a text spells, checked. -/
def readText (text : String) : Except Error Settings :=
  match (document text).bind ofForm? with
  | none => .error .parse
  | some s =>
      match s.check with
      | .error defect => .error (.invalid defect)
      | .ok () => .ok s

/-- The settings in a file, whose bytes are given if it can be read. -/
def readBytes : Option ByteArray → Except Error Settings
  | none => .error .io
  | some bytes =>
      if maxFileBytes < bytes.size then .error (.invalid .fileTooLarge)
      else match String.fromUTF8? bytes with
        | none => .error (.invalid .fileNotText)
        | some text => readText document text

/-- Reads settings from a file, where `read` gives the bytes of files that can be read. -/
def readFile (requested environment : Option String) (read : String → Option ByteArray) :
    Except Error Settings := do
  let path ← choosePath requested environment
  forbid ((excess? path).map fun e => .invalid (.longFilePath e))
  readBytes document (read path)

end

end Verdict.Settings
