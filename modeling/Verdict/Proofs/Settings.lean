/-
  Settings — which settings are accepted, and what acceptance is worth.

  1. **Specification** — `Settings.WellFormed` says in numbers what settings have to be: each limit
     and the deadline within its range, and a path exactly if the sink is a log.  A path counts
     without the blanks around it (`LogsTo`), and is measured as a whole and by its components
     (`LogPath`).

  2. **Checks** — each check as an iff, down to the range of a single number.

  3. **Use** — `Settings.Usable`: the log is opened at the very path that was measured, a sink that
     is no log is opened always, and the registry under the limits stays below the ceilings,
     whatever is submitted to it.

  4. **Reading** — nothing comes out of a text or a file that was not checked, WHATEVER reads the
     documents (`readFile_eq_ok_iff`), and well-formed settings are read back from their form.

  5. **Theorem** — `check_exact`: exactly the well-formed settings are accepted, and accepted
     settings are usable.
-/
import Verdict.Proofs.Form.Definition
import Verdict.Proofs.Registry.Limits
import Verdict.Proofs.Text
import Verdict.Settings.Reading

namespace Verdict

namespace Settings

/-! ## The specification -/

/-- A path at which a log can stand. -/
structure LogPath (path : String) : Prop where
  ne_empty : path ≠ ""
  size_le : path.utf8ByteSize ≤ 4096
  component_le : ∀ c, Text.Component path c → c.utf8ByteSize ≤ 255

/-- The sink is a log, and this is its path without the blanks around it. -/
def LogsTo (s : Settings) (log : String) : Prop :=
  s.sink = .jsonl ∧ ∃ path, s.path = some path ∧ Text.Trimmed path log

/-- Settings that can be used. -/
structure WellFormed (s : Settings) : Prop where
  maxRules : 1 ≤ s.limits.maxRules ∧ s.limits.maxRules ≤ 65536
  maxSteps : 1 ≤ s.limits.maxSteps ∧ s.limits.maxSteps ≤ 4096
  maxNestingDepth : 1 ≤ s.limits.maxNestingDepth ∧ s.limits.maxNestingDepth ≤ 64
  maxConditionDepth : 1 ≤ s.limits.maxConditionDepth ∧ s.limits.maxConditionDepth ≤ 256
  maxConditionNodes : 1 ≤ s.limits.maxConditionNodes ∧ s.limits.maxConditionNodes ≤ 65536
  deadline : ∀ ms, s.deadline = some ms → 1 ≤ ms ∧ ms ≤ 86400000
  sink : (∃ log, s.LogsTo log ∧ LogPath log) ∨ s.sink ≠ .jsonl ∧ s.path = none

/-- What accepted settings are good for. -/
structure Usable (s : Settings) : Prop where
  /-- The sink opens, or its file does not: there is nothing left to object to the settings. -/
  opens : ∀ openable, s.openSink openable = .ok () ∨ s.openSink openable = .error .io
  /-- A log is opened at the path that was measured, and nowhere else. -/
  log : s.sink = .jsonl → ∃ log, s.LogsTo log ∧ LogPath log ∧
    ∀ openable, s.openSink openable = if openable log then .ok () else .error .io
  /-- Other sinks need no file. -/
  noLog : s.sink ≠ .jsonl → ∀ openable, s.openSink openable = .ok ()
  /-- Whatever is submitted, and refused or admitted, nothing exceeds the ceilings. -/
  registry : ∀ ds, (Registry.ofDefinitions s.limits ds).Keeps
    { maxRules := 65536
      maxSteps := 4096
      maxNestingDepth := 64
      maxConditionDepth := 256
      maxConditionNodes := 65536 }

/-! ## Paths -/

/-- The path without its blanks is the one that trimming computes. -/
theorem logsTo_iff {s : Settings} {log : String} :
    s.LogsTo log ↔ s.sink = .jsonl ∧ ∃ path, s.path = some path ∧ log = Text.trim path := by
  simp only [LogsTo, Text.trimmed_iff]

/-- Nothing is too long iff neither the path nor one of its components is.  The program measures the
    pieces between slashes; the root and a leading dot are components too, and are short. -/
theorem excess?_eq_none_iff {path : String} :
    excess? path = none ↔
      path.utf8ByteSize ≤ 4096 ∧ ∀ c, Text.Component path c → c.utf8ByteSize ≤ 255 := by
  rw [Text.forall_component_iff (by decide), excess?]
  by_cases hpath : maxPathBytes < path.utf8ByteSize
  · -- The whole path is asked about first.
    rw [if_pos hpath]
    exact ⟨nofun, fun h => absurd hpath (Nat.not_lt.mpr h.1)⟩
  · rw [if_neg hpath]
    have hsize : path.utf8ByteSize ≤ 4096 := Nat.le_of_not_lt hpath
    have hany : (Text.pathComponents path).any (maxComponentBytes < ·.utf8ByteSize) = false ↔
        ∀ c ∈ Text.pathComponents path, c.utf8ByteSize ≤ 255 := by
      simp only [List.any_eq_false, decide_eq_true_eq, Nat.not_lt]
      exact Iff.rfl
    rw [← hany]
    cases (Text.pathComponents path).any (maxComponentBytes < ·.utf8ByteSize) with
    | false => exact ⟨fun _ => ⟨hsize, rfl⟩, fun _ => rfl⟩
    | true => exact ⟨nofun, fun h => by cases h.2⟩

/-- The check of a log's path, after trimming. -/
theorem checkLogPath_eq_ok_iff {path : String} :
    checkLogPath path = .ok () ↔ LogPath path := by
  simp only [checkLogPath, bind_eq_ok_iff, ensure_eq_ok_iff, forbid_eq_ok_iff,
    Option.map_eq_none_iff, excess?_eq_none_iff, Bool.not_eq_true', ← Bool.not_eq_true,
    String.isEmpty_iff]
  exact ⟨fun ⟨_, hsome, hsize, hcomponents⟩ => ⟨hsome, hsize, hcomponents⟩,
    fun h => ⟨(), h.ne_empty, h.size_le, h.component_le⟩⟩

/-! ## Checks -/

/-- A number is checked against zero and against its ceiling. -/
theorem checkRange_eq_ok_iff {field : String} {n ceiling : Nat} {u : Unit} :
    checkRange field n ceiling = .ok u ↔ 1 ≤ n ∧ n ≤ ceiling := by
  simp only [checkRange, bind_eq_ok_iff, ensure_eq_ok_iff, bne_iff_ne, decide_eq_true_eq]
  exact ⟨fun ⟨_, hsome, hle⟩ => ⟨Nat.pos_of_ne_zero hsome, hle⟩,
    fun h => ⟨(), Nat.ne_of_gt h.1, h.2⟩⟩

/-- The check of a sink passes iff it is a log with a path for it, or has no path and is none.
    Sink and path are asked about together: a log without a path is as wrong as a path without a
    log. -/
theorem checkSink_eq_ok_iff {s : Settings} :
    checkSink s.sink s.path = .ok () ↔
      (∃ log, s.LogsTo log ∧ LogPath log) ∨ s.sink ≠ .jsonl ∧ s.path = none := by
  simp only [logsTo_iff]
  cases hsink : s.sink with
  | jsonl =>
      cases hpath : s.path with
      | none =>
          -- A log without a path is neither of the two.
          refine ⟨nofun, ?_⟩
          rintro (⟨_, ⟨_, _, hsome, _⟩, _⟩ | ⟨hother, _⟩)
          · cases hsome
          · exact absurd rfl hother
      | some path =>
          rw [checkSink, checkLogPath_eq_ok_iff]
          constructor
          · intro h
            exact Or.inl ⟨Text.trim path, ⟨rfl, path, rfl, rfl⟩, h⟩
          · rintro (⟨_, ⟨_, _, hsome, rfl⟩, h⟩ | ⟨hother, _⟩)
            · cases hsome
              exact h
            · exact absurd rfl hother
  | none | stderr =>
      cases hpath : s.path with
      | none => exact ⟨fun _ => Or.inr ⟨nofun, rfl⟩, fun _ => rfl⟩
      | some path =>
          -- Nor is a path that no log is written to.
          refine ⟨nofun, ?_⟩
          rintro (⟨_, ⟨hlog, _⟩, _⟩ | ⟨_, hnone⟩)
          · cases hlog
          · cases hnone

/-- The five limits are one check each, every one with its own ceiling. -/
theorem checkLimits_eq_ok_iff {limits : Limits} {u : Unit} :
    checkLimits limits = .ok u ↔
      (1 ≤ limits.maxRules ∧ limits.maxRules ≤ 65536)
        ∧ (1 ≤ limits.maxSteps ∧ limits.maxSteps ≤ 4096)
        ∧ (1 ≤ limits.maxNestingDepth ∧ limits.maxNestingDepth ≤ 64)
        ∧ (1 ≤ limits.maxConditionDepth ∧ limits.maxConditionDepth ≤ 256)
        ∧ (1 ≤ limits.maxConditionNodes ∧ limits.maxConditionNodes ≤ 65536) := by
  simp only [checkLimits, bind_eq_ok_iff, checkRange_eq_ok_iff, exists_const, ceilings]

/-- A deadline is checked if there is one, between the limits and the sink. -/
theorem check_eq_ok_iff_parts {s : Settings} :
    s.check = .ok () ↔
      checkLimits s.limits = .ok ()
        ∧ (∀ ms, s.deadline = some ms → checkRange "run.deadline_ms" ms maxDeadline = .ok ())
        ∧ checkSink s.sink s.path = .ok () := by
  unfold check
  cases s.deadline with
  | none =>
      simp only [bind_eq_ok_iff]
      constructor
      · rintro ⟨_, hlimits, hsink⟩
        exact ⟨hlimits, fun ms heq => (by cases heq), hsink⟩
      · rintro ⟨hlimits, _, hsink⟩
        exact ⟨(), hlimits, hsink⟩
  | some deadline =>
      simp only [bind_eq_ok_iff]
      constructor
      · rintro ⟨_, hlimits, _, hrange, hsink⟩
        exact ⟨hlimits, fun ms heq => by cases heq; exact hrange, hsink⟩
      · rintro ⟨hlimits, hrange, hsink⟩
        exact ⟨(), hlimits, (), hrange deadline rfl, hsink⟩

/-- **Exactly the well-formed settings** pass: the checks are those of the limits, the deadline and
    the sink, and the fields of `WellFormed` say what each of them comes to. -/
theorem check_eq_ok_iff {s : Settings} : s.check = .ok () ↔ s.WellFormed := by
  have hdeadline : ∀ ms, checkRange "run.deadline_ms" ms maxDeadline = .ok () ↔
      1 ≤ ms ∧ ms ≤ 86400000 := fun ms => checkRange_eq_ok_iff
  rw [check_eq_ok_iff_parts]
  simp only [checkLimits_eq_ok_iff, hdeadline, checkSink_eq_ok_iff]
  exact ⟨fun ⟨⟨h₁, h₂, h₃, h₄, h₅⟩, h₆, h₇⟩ => ⟨h₁, h₂, h₃, h₄, h₅, h₆, h₇⟩,
    fun h => ⟨⟨h.maxRules, h.maxSteps, h.maxNestingDepth, h.maxConditionDepth,
      h.maxConditionNodes⟩, h.deadline, h.sink⟩⟩

/-! ## Use -/

section

variable {s : Settings}

/-- What is opened is the trimmed path: the one that was measured. -/
theorem openSink_of_logsTo {log : String} (h : s.LogsTo log) (openable : String → Bool) :
    s.openSink openable = if openable log then .ok () else .error .io := by
  obtain ⟨hsink, path, hpath, rfl⟩ := logsTo_iff.mp h
  rw [openSink, hsink, hpath]
  rfl

theorem openSink_of_noLog (h : s.sink ≠ .jsonl) (openable : String → Bool) :
    s.openSink openable = .ok () := by
  unfold openSink
  cases hsink : s.sink with
  | jsonl => exact absurd hsink h
  | none | stderr => rfl

/-- Well-formed settings are usable: the sink finds what it needs, and the limits are below the
    ceilings, so that a registry under the limits stays below the ceilings too. -/
theorem WellFormed.usable (h : s.WellFormed) : s.Usable where
  opens := by
    intro openable
    rcases h.sink with ⟨log, hlog, _⟩ | ⟨hother, _⟩
    · rw [openSink_of_logsTo hlog]
      cases openable log with
      | true => exact Or.inl rfl
      | false => exact Or.inr rfl
    · exact Or.inl (openSink_of_noLog hother openable)
  log := by
    intro hsink
    rcases h.sink with ⟨log, hlog, hpath⟩ | ⟨hother, _⟩
    · exact ⟨log, hlog, hpath, openSink_of_logsTo hlog⟩
    · exact absurd hsink hother
  noLog := openSink_of_noLog
  registry := by
    intro ds
    have hkept := Registry.keeps_ofDefinitions s.limits ds
    exact hkept.mono ⟨h.maxRules.2, h.maxSteps.2, h.maxNestingDepth.2, h.maxConditionDepth.2,
      h.maxConditionNodes.2⟩

end

/-! ## Reading -/

section

variable {document : String → Option Form} {s : Settings}

/-- A text is accepted if it spells the form of well-formed settings.  What the reader of documents
    makes of the text is left open; whatever it is, it is checked. -/
theorem readText_eq_ok_iff {text : String} :
    readText document text = .ok s ↔ (document text).bind ofForm? = some s ∧ s.WellFormed := by
  unfold readText
  cases (document text).bind ofForm? with
  | none => exact ⟨nofun, fun h => by cases h.1⟩
  | some found =>
      dsimp only
      rw [Option.some_inj]
      cases hcheck : found.check with
      | error defect =>
          -- Well-formed settings would have passed.
          refine ⟨nofun, ?_⟩
          rintro ⟨rfl, hwell⟩
          rw [check_eq_ok_iff.mpr hwell] at hcheck
          cases hcheck
      | ok u =>
          constructor
          · intro h
            cases h
            exact ⟨rfl, check_eq_ok_iff.mp hcheck⟩
          · rintro ⟨rfl, _⟩
            rfl

/-- The bytes of a file are settings if there are bytes at all, not too many, and they are a text
    that is read as settings. -/
theorem readBytes_eq_ok_iff {found : Option ByteArray} :
    readBytes document found = .ok s ↔
      ∃ bytes text, found = some bytes ∧ bytes.size ≤ 1048576
        ∧ String.fromUTF8? bytes = some text ∧ readText document text = .ok s := by
  cases found with
  | none => exact ⟨nofun, fun ⟨_, _, h, _⟩ => by cases h⟩
  | some bytes =>
      rw [readBytes]
      -- Too many bytes, no text, and then the text itself, in the order of the questions.
      by_cases hlarge : maxFileBytes < bytes.size
      · rw [if_pos hlarge]
        refine ⟨nofun, ?_⟩
        rintro ⟨_, _, heq, hsize, _⟩
        cases heq
        exact absurd hlarge (Nat.not_lt.mpr hsize)
      · rw [if_neg hlarge]
        have hsize : bytes.size ≤ 1048576 := Nat.le_of_not_lt hlarge
        cases htext : String.fromUTF8? bytes with
        | none =>
            refine ⟨nofun, ?_⟩
            rintro ⟨_, _, heq, _, hsome, _⟩
            cases heq
            rw [htext] at hsome
            cases hsome
        | some text =>
            constructor
            · intro h
              exact ⟨bytes, text, rfl, hsize, htext, h⟩
            · rintro ⟨_, _, heq, _, hsome, h⟩
              cases heq
              rw [htext] at hsome
              cases hsome
              exact h

/-- **Nothing unchecked comes from a file.**  Whatever reads the documents, settings are read from a
    file exactly if the path that counts is no longer than paths may be, as a whole and by its
    components, the file can be read and is not too large, its bytes are a text, and the text
    spells the form of well-formed settings. -/
theorem readFile_eq_ok_iff {requested environment : Option String}
    {read : String → Option ByteArray} :
    readFile document requested environment read = .ok s ↔
      ∃ path bytes text, choosePath requested environment = .ok path
        ∧ path.utf8ByteSize ≤ 4096
        ∧ (∀ c, Text.Component path c → c.utf8ByteSize ≤ 255)
        ∧ read path = some bytes
        ∧ bytes.size ≤ 1048576
        ∧ String.fromUTF8? bytes = some text
        ∧ (document text).bind ofForm? = some s
        ∧ s.WellFormed := by
  simp only [readFile, bind_eq_ok_iff, forbid_eq_ok_iff, Option.map_eq_none_iff,
    excess?_eq_none_iff, readBytes_eq_ok_iff, readText_eq_ok_iff]
  constructor
  · rintro ⟨path, hpath, _, ⟨hsize, hcomponents⟩, bytes, text, hread, hfits, htext, hspells, hwell⟩
    exact ⟨path, bytes, text, hpath, hsize, hcomponents, hread, hfits, htext, hspells, hwell⟩
  · rintro ⟨path, bytes, text, hpath, hsize, hcomponents, hread, hfits, htext, hspells, hwell⟩
    exact ⟨path, hpath, (), ⟨hsize, hcomponents⟩, bytes, text, hread, hfits, htext, hspells, hwell⟩

/-! ## Forms -/

theorem orDefault_of_part? {α : Type} {read : Form → Option α} {otherwise x : α}
    {parts : List (String × Form)} {name : String} {form : Form}
    (hpart : Form.part? parts name = some form) (hread : read form = some x) :
    orDefault read otherwise parts name = some x := by
  rw [orDefault, hpart]
  exact hread

/-- What is written as null when there is nothing to say is read back. -/
theorem optional_orNull {α : Type} {read : Form → Option α} {write : α → Form}
    {parts : List (String × Form)} {name : String} {x : Option α}
    (hpart : Form.part? parts name = some (orNull write x))
    (hread : ∀ y, x = some y → write y ≠ .null ∧ read (write y) = some y) :
    Form.optional read parts name = some x := by
  cases x with
  | none =>
      unfold Form.optional
      rw [hpart]
      rfl
  | some y =>
      obtain ⟨hnull, hy⟩ := hread y rfl
      exact Form.optional_of_ne_null hpart hnull hy

/-- Numbers of well-formed settings fit 64 bits. -/
theorem natural?_int_of_le {n : Nat} (h : n ≤ 86400000) : Form.natural? (.int n) = some n :=
  Form.natural?_int (Nat.lt_of_le_of_lt h (by decide))

/-- Limits below the ceilings are read back: each one has its part, and so none its default. -/
theorem WellFormed.limitsOfForm?_toForm (h : s.WellFormed) :
    limitsOfForm? s.limits.toForm = some s.limits := by
  have hfits : ∀ {lowest n highest : Nat}, lowest ≤ n ∧ n ≤ highest → highest ≤ 86400000 →
      Form.natural? (.int n) = some n :=
    fun hn hhighest => natural?_int_of_le (Nat.le_trans hn.2 hhighest)
  obtain ⟨parts, hparts, hrules, hsteps, hnesting, hdepth, hnodes⟩ :
      ∃ parts, onlyParts? ["max_rules", "max_steps", "max_nesting_depth", "max_condition_depth",
          "max_condition_nodes"] s.limits.toForm = some parts
        ∧ (∀ n, orDefault Form.natural? n parts "max_rules" = some s.limits.maxRules)
        ∧ (∀ n, orDefault Form.natural? n parts "max_steps" = some s.limits.maxSteps)
        ∧ (∀ n, orDefault Form.natural? n parts "max_nesting_depth"
            = some s.limits.maxNestingDepth)
        ∧ (∀ n, orDefault Form.natural? n parts "max_condition_depth"
            = some s.limits.maxConditionDepth)
        ∧ ∀ n, orDefault Form.natural? n parts "max_condition_nodes"
            = some s.limits.maxConditionNodes :=
    ⟨_, rfl, fun _ => orDefault_of_part? rfl (hfits h.maxRules (by decide)),
      fun _ => orDefault_of_part? rfl (hfits h.maxSteps (by decide)),
      fun _ => orDefault_of_part? rfl (hfits h.maxNestingDepth (by decide)),
      fun _ => orDefault_of_part? rfl (hfits h.maxConditionDepth (by decide)),
      fun _ => orDefault_of_part? rfl (hfits h.maxConditionNodes (by decide))⟩
  simp only [limitsOfForm?, hparts, hrules, hsteps, hnesting, hdepth, hnodes,
    Option.bind_eq_bind, Option.bind_some]
  rfl

/-- The name of a sink is read as that sink. -/
theorem Sink.ofName?_name (sink : Sink) : Sink.ofName? sink.name = some sink := by
  cases sink <;> decide

/-- A sink is read back with the path of its log. -/
theorem sinkOfForm?_object (sink : Sink) (path : Option String) :
    sinkOfForm? (.object [("sink", .str sink.name), ("path", orNull .str path)])
      = some (sink, path) := by
  obtain ⟨parts, hparts, hsink, hpath⟩ :
      ∃ parts, onlyParts? ["sink", "path"]
          (.object [("sink", .str sink.name), ("path", orNull .str path)]) = some parts
        ∧ orDefault (fun form => form.str?.bind Sink.ofName?) .none parts "sink" = some sink
        ∧ Form.optional Form.str? parts "path" = some path :=
    ⟨_, rfl, orDefault_of_part? rfl (Sink.ofName?_name sink),
      optional_orNull rfl fun path _ => ⟨nofun, rfl⟩⟩
  simp only [sinkOfForm?, hparts, hsink, hpath, Option.bind_eq_bind, Option.bind_some]
  rfl

/-- **Well-formed settings** are read back from their form: the ceilings fit 64 bits.  The form says
    everything, so that no default takes part; each of the three tables is read by itself, then
    the settings are put together from them. -/
theorem WellFormed.ofForm?_toForm (h : s.WellFormed) : ofForm? s.toForm = some s := by
  have hdeadline : deadlineOfForm?
      (.object [("deadline_ms", orNull (fun n => .int (n : Nat)) s.deadline)])
        = some s.deadline :=
    optional_orNull rfl fun ms hms => ⟨nofun, natural?_int_of_le (h.deadline ms hms).2⟩
  obtain ⟨parts, hparts, hlimits, hrun, haudit⟩ :
      ∃ parts, onlyParts? ["limits", "run", "audit"] s.toForm = some parts
        ∧ orDefault limitsOfForm? .default parts "limits" = some s.limits
        ∧ orDefault deadlineOfForm? none parts "run" = some s.deadline
        ∧ orDefault sinkOfForm? (.none, none) parts "audit" = some (s.sink, s.path) :=
    ⟨_, rfl, orDefault_of_part? rfl h.limitsOfForm?_toForm, orDefault_of_part? rfl hdeadline,
      orDefault_of_part? rfl (sinkOfForm?_object s.sink s.path)⟩
  simp only [ofForm?, hparts, hlimits, hrun, haudit, Option.bind_eq_bind, Option.bind_some]
  rfl

end

/-! ## The theorem -/

/-- **Settings.**  Exactly the well-formed settings are accepted, and all that are accepted are
    usable: opening the sink has nothing to object to them, a log stands at the path that was
    checked, and a registry under their limits stays below the ceilings. -/
theorem check_exact (s : Settings) :
    (s.check = .ok () ↔ s.WellFormed) ∧ (s.check = .ok () → s.Usable) :=
  ⟨check_eq_ok_iff, fun h => (check_eq_ok_iff.mp h).usable⟩

/-! ## A log with blanks around its path -/

/-- Limits that are as wide as they can be, and a log whose path is a little off. -/
def blurredLog : Settings where
  limits := ceilings
  deadline := some 86400000
  sink := .jsonl
  path := some " \u2003./runs/today.jsonl\t"

theorem check_exact_blurredLog :
    blurredLog.check = .ok () ∧ blurredLog.WellFormed
      ∧ (∀ openable, blurredLog.openSink openable
          = if openable "./runs/today.jsonl" then .ok () else .error .io)
      ∧ (Registry.ofDefinitions blurredLog.limits Registry.visitDefinitions).flows.get? "visit"
          = some Registry.admittedVisit
      ∧ Registry.admittedVisit.facts.nestingDepth ≤ 64 := by
  have hcheck : blurredLog.check = .ok () := by decide +kernel
  obtain ⟨hexact, husable⟩ := check_exact blurredLog
  have husable := husable hcheck
  obtain ⟨log, hlog, _, hopens⟩ := husable.log rfl
  have hpath : log = "./runs/today.jsonl" := by
    obtain ⟨_, path, hpath, rfl⟩ := logsTo_iff.mp hlog
    cases hpath
    decide +kernel
  subst hpath
  have hvisit : (Registry.ofDefinitions blurredLog.limits Registry.visitDefinitions).flows.get?
      "visit" = some Registry.admittedVisit := rfl
  exact ⟨hcheck, hexact.mp hcheck, hopens, hvisit,
    (husable.registry Registry.visitDefinitions).nestingDepth "visit" _ hvisit⟩

end Settings

end Verdict
