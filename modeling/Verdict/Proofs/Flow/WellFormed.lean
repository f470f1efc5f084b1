/-
  Well-formed flows — what a flow has to be, said without the walk.

  1. **Results** — `Flow.Results`: which steps of a row have results, and of which types.  A binding
     reads the steps IN FRONT of its own (`take index`), a gate reads its own step as well
     (`take (index + 1)`), and an output reads them all.

  2. **Specification** — `Source.Provides` and `Source.Assignable` for sources, `Step.WellFormed`
     for one step among others, `Flow.WellFormed` for all of a flow, `Flow.factsOver` for what is
     to be found out about it.  None of them speaks of an order in which things are checked.

  3. **The walk** — carries along what the steps in front produce.  `resulting` is that row without
     the walk, and `stepsAdmitted_iff` takes the walk apart: one statement for every index.  Where
     the names of steps are different and their targets known (`Resolved`), the row and `Results`
     say the same.

  4. **Spelling** — `WellFormed.parsed`: the names on the paths of a well-formed flow are
     identifiers, so each of its paths can be written down and parsed.

  5. **Theorem** — `check_flow_eq_ok_iff_wellFormed`: over every registry that came about by
     submissions, the check passes exactly the well-formed flows, and finds out their facts.
-/
import Mathlib.Data.List.Perm.Subperm
import Verdict.Proofs.Registry.History
import Verdict.Proofs.Table.WellFormed

namespace Verdict

/-! ## Sources -/

/-- One of the given steps has this name, and a result of this type: the output of its target. -/
def Flow.Results (catalog : Target → Option Signature) (steps : List Step) (name : String)
    (type : ValueType) : Prop :=
  ∃ step ∈ steps, step.name = name ∧
    ∃ target, catalog step.target = some target ∧ target.output = type

/-- The type of what a source provides, where the input is declared and results are known. -/
inductive Source.Provides (input : Shape) (results : String → ValueType → Prop) :
    Source → ValueType → Prop
  | input {field : String} {t : ValueType} (declared : (field, t) ∈ input.toList) :
      Provides input results (.input field) t
  | result {name : String} {t : ValueType} (known : results name t) :
      Provides input results (.step name none) t
  | inside {name : String} {path : FieldPath} {t u : ValueType} (known : results name t)
      (declared : t.Declares path.names u) : Provides input results (.step name (some path)) u
  | constant {v : Value} : Provides input results (.constant v) (ValueType.of v)

/-- A source that may be read where `expected` is declared. -/
def Source.Assignable (input : Shape) (results : String → ValueType → Prop)
    (expected : ValueType) (source : Source) : Prop :=
  ∃ found, source.Provides input results found ∧ expected.acceptsType found = true

/-! ## Steps and flows -/

/-- A step that stands at an index of a flow and calls a target with the given signature. -/
structure Step.WellFormed (step : Step) (flow : Flow) (catalog : Target → Option Signature)
    (limits : Limits) (index : Nat) (target : Signature) : Prop where
  name : isIdentifier step.name = true
  budget : step.budget ≠ some 0
  gateMessage : step.gateMessage ≠ none → step.gate ≠ none
  nesting : target.nestingDepth + 1 ≤ limits.maxNestingDepth
  /-- The fields that are bound are the fields of the target, each one once. -/
  bound : (step.inputs.map (·.field)).Perm target.input.names
  sources : ∀ b ∈ step.inputs, ∃ expected, (b.field, expected) ∈ target.input.toList ∧
    b.source.Assignable flow.input (Flow.Results catalog (flow.steps.take index)) expected
  gate : ∀ gate, step.gate = some gate → gate.WellFormed limits fun p type =>
    ∃ t, Flow.Results catalog (flow.steps.take (index + 1)) p.head.text t
      ∧ t.Declares p.restNames type

namespace Flow

/-- A flow whose references lead back to what is declared, within the limits. -/
structure WellFormed (flow : Flow) (catalog : Target → Option Signature) (limits : Limits) :
    Prop where
  steps_pos : 1 ≤ flow.steps.length
  steps_le : flow.steps.length ≤ limits.maxSteps
  nesting_pos : 1 ≤ limits.maxNestingDepth
  input : (ValueType.record flow.input).WellNamed
  output : (ValueType.record flow.outputShape).WellNamed
  distinct : (flow.steps.map (·.name)).Nodup
  steps : ∀ (index : Nat) (step : Step), flow.steps[index]? = some step →
    ∃ target, catalog step.target = some target
      ∧ step.WellFormed flow catalog limits index target
  outputs_distinct : (flow.outputs.map (·.name)).Nodup
  outputs : ∀ o ∈ flow.outputs,
    o.source.Assignable flow.input (Results catalog flow.steps) o.type

/-- What there is to find out about a flow: the shape of its output, one level of nesting more than
    its deepest target has, and the output types of its targets, step by step. -/
def factsOver (flow : Flow) (catalog : Target → Option Signature) : FlowFacts where
  outputShape := flow.outputShape
  nestingDepth := 1 + deepest catalog flow.steps
  stepOutputs := flow.steps.filterMap fun step => (catalog step.target).map (·.output)

end Flow

/-! ## The row of results -/

/-- Names are different exactly if none of them occurs in front of itself. -/
theorem nodup_map_iff_take {α β : Type} {f : α → β} {xs : List α} :
    (xs.map f).Nodup ↔ ∀ index x, xs[index]? = some x → f x ∉ (xs.take index).map f := by
  rw [List.Nodup, List.pairwise_map, List.pairwise_iff_getElem]
  constructor
  · intro h index x hx hmem
    obtain ⟨hlt, rfl⟩ := List.getElem?_eq_some_iff.mp hx
    obtain ⟨y, hy, heq⟩ := List.mem_map.mp hmem
    obtain ⟨i, hi, rfl⟩ := List.mem_take_iff_getElem.mp hy
    exact h i index (by omega) hlt (by omega) heq
  · intro h i j hi hj hij heq
    refine h j xs[j] (List.getElem?_eq_getElem hj) (List.mem_map.mpr ⟨xs[i], ?_, heq⟩)
    exact List.mem_take_iff_getElem.mpr ⟨i, by omega, rfl⟩

namespace Flow

variable {flow : Flow} {catalog : Target → Option Signature} {limits : Limits}

/-- The steps whose targets are known, with the output types of these. -/
def resulting (catalog : Target → Option Signature) (steps : List Step) : Produced :=
  steps.filterMap fun step => (catalog step.target).map fun target => (step.name, target.output)

theorem resulting_cons {step : Step} {target : Signature} (h : catalog step.target = some target)
    (steps : List Step) :
    resulting catalog (step :: steps) = (step.name, target.output) :: resulting catalog steps :=
  List.filterMap_cons_some (by rw [h, Option.map_some])

theorem map_snd_resulting (steps : List Step) :
    (resulting catalog steps).map (·.2)
      = steps.filterMap fun step => (catalog step.target).map (·.output) := by
  rw [resulting, List.map_filterMap]
  simp only [Option.map_map]
  rfl

theorem mem_resulting_iff {steps : List Step} {name : String} {t : ValueType} :
    (name, t) ∈ resulting catalog steps ↔ Results catalog steps name t := by
  simp only [resulting, List.mem_filterMap, Option.map_eq_some_iff, Prod.mk.injEq, Results]
  constructor
  · rintro ⟨step, hstep, target, htarget, hname, htype⟩
    exact ⟨step, hstep, hname, target, htarget, htype⟩
  · rintro ⟨step, hstep, hname, target, htarget, htype⟩
    exact ⟨step, hstep, target, htarget, hname, htype⟩

/-- The names of steps whose targets are all known. -/
theorem map_fst_resulting {steps : List Step}
    (h : ∀ step ∈ steps, ∃ target, catalog step.target = some target) :
    (resulting catalog steps).map (·.1) = steps.map (·.name) := by
  induction steps with
  | nil => rfl
  | cons step steps ih =>
      obtain ⟨⟨target, htarget⟩, hrest⟩ := List.forall_mem_cons.mp h
      rw [resulting_cons htarget, List.map_cons, List.map_cons, ih hrest]

/-! ## The walk, index by index -/

/-- **The walk taken apart.**  It passes if every step is admitted after what the steps in front of
    it produce, and it arrives at what all of them produce.  The induction is on the steps, for
    every row and depth in front of them; at the start of a flow the row is empty and the depth
    is one. -/
theorem stepsAdmitted_iff {produced produced' : Produced} {depth depth' : Nat}
    {steps : List Step} (hpos : 1 ≤ depth) (hmax : depth ≤ limits.maxNestingDepth) :
    flow.StepsAdmitted catalog limits produced depth steps produced' depth' ↔
      (∀ index step, steps[index]? = some step →
          ∃ target, catalog step.target = some target
            ∧ target.nestingDepth + 1 ≤ limits.maxNestingDepth
            ∧ flow.StepAdmitted limits (produced ++ resulting catalog (steps.take index)) step
                target)
        ∧ produced' = produced ++ resulting catalog steps
        ∧ depth' = max depth (1 + deepest catalog steps) := by
  induction steps generalizing produced depth with
  | nil =>
      have hdeepest : deepest catalog [] = 0 := rfl
      have hresulting : resulting catalog [] = [] := rfl
      rw [hdeepest, hresulting, List.append_nil, Nat.max_eq_left hpos]
      constructor
      · intro h
        cases h
        exact ⟨nofun, rfl, rfl⟩
      · rintro ⟨_, rfl, rfl⟩
        exact .nil
  | cons step steps ih =>
      constructor
      · -- What the walk admitted, index by index.
        intro h
        cases h with
        | @cons _ _ _ _ _ _ target registered shallow head tail =>
            obtain ⟨hrest, hproduced, hdepth⟩ := (ih (by omega) shallow).mp tail
            refine ⟨fun index s hs => ?_, ?_, ?_⟩
            · -- Index zero is the step itself; for those behind it the row is one entry longer.
              cases index with
              | zero =>
                  cases hs
                  refine ⟨target, registered, by omega, ?_⟩
                  rw [List.take_zero, resulting, List.filterMap_nil, List.append_nil]
                  exact head
              | succ index =>
                  obtain ⟨other, hother, hlevel, hadmitted⟩ := hrest index s hs
                  refine ⟨other, hother, hlevel, ?_⟩
                  rw [List.append_assoc] at hadmitted
                  rw [List.take_succ_cons, resulting_cons registered]
                  exact hadmitted
            · rw [hproduced, resulting_cons registered, List.append_assoc]
              rfl
            · rw [hdepth, deepest_cons registered]
              omega
      · -- Back: the statement at index zero is the walk's head, at the others it is its tail.
        rintro ⟨h, rfl, rfl⟩
        obtain ⟨target, registered, hlevel, head⟩ := h 0 step rfl
        rw [List.take_zero, resulting, List.filterMap_nil, List.append_nil] at head
        have shallow : max depth (target.nestingDepth + 1) ≤ limits.maxNestingDepth := by omega
        refine .cons registered shallow head ((ih (by omega) shallow).mpr ⟨?_, ?_, ?_⟩)
        · intro index s hs
          obtain ⟨other, hother, hlevel', hadmitted⟩ := h (index + 1) s hs
          rw [List.take_succ_cons, resulting_cons registered] at hadmitted
          refine ⟨other, hother, hlevel', ?_⟩
          rw [List.append_assoc]
          exact hadmitted
        · rw [resulting_cons registered, List.append_assoc]
          rfl
        · rw [deepest_cons registered]
          omega

/-! ## Known results -/

/-- Steps with different names whose targets are known, by signatures without defects. -/
structure Resolved (catalog : Target → Option Signature) (steps : List Step) : Prop where
  registered : ∀ step ∈ steps, ∃ target, catalog step.target = some target
  sound : ∀ step ∈ steps, ∀ target, catalog step.target = some target →
    target.input.defect? = none ∧ target.output.defect? = none
  distinct : (steps.map (·.name)).Nodup

namespace Resolved

variable {steps : List Step}

theorem take (h : Resolved catalog steps) (n : Nat) : Resolved catalog (steps.take n) where
  registered step hstep := h.registered step (List.mem_of_mem_take hstep)
  sound step hstep := h.sound step (List.mem_of_mem_take hstep)
  distinct := h.distinct.sublist ((List.take_sublist n steps).map _)

/-- The row of results and `Results` say the same of a name. -/
theorem type?_eq_some_iff (h : Resolved catalog steps) {name : String} {t : ValueType} :
    (resulting catalog steps).type? name = some t ↔ Results catalog steps name t := by
  have hnames : ((resulting catalog steps).map (·.1)).Nodup := by
    rw [map_fst_resulting h.registered]
    exact h.distinct
  rw [Produced.type?_eq_some_iff hnames, mem_resulting_iff]

/-- What is found inside the result of a step is what is declared there. -/
theorem at?_eq_some_iff (h : Resolved catalog steps) {name : String} {t u : ValueType}
    (ht : Results catalog steps name t) {path : List String} :
    t.at? path = some u ↔ t.Declares path u := by
  obtain ⟨step, hstep, _, target, htarget, rfl⟩ := ht
  have hdefect := (h.sound step hstep target htarget).2
  exact (ValueType.Unambiguous.of_defect? hdefect).at?_eq_some_iff

/-- Results are read off the row, or known: this makes no difference to a source.  Each case of a
    source is one constructor of `Provides`. -/
theorem fits_iff (h : Resolved catalog steps) (hin : flow.input.defect? = none)
    {expected : ValueType} {source : Source} :
    source.Fits flow (resulting catalog steps) expected ↔
      source.Assignable flow.input (Results catalog steps) expected := by
  refine exists_congr fun found => and_congr_left fun _ => ?_
  cases source with
  | input field =>
      rw [Source.HasType, Shape.type?_eq_some_iff (Shape.nodup_of_defect? hin)]
      constructor
      · exact .input
      · intro hprovides
        cases hprovides with
        | input declared => exact declared
  | step name path =>
      cases path with
      | none =>
          rw [Source.HasType, h.type?_eq_some_iff]
          constructor
          · exact .result
          · intro hprovides
            cases hprovides with
            | result known => exact known
      | some path =>
          -- Here what is FOUND at the end of the path has to be what is declared there.
          simp only [Source.HasType, h.type?_eq_some_iff]
          constructor
          · rintro ⟨t, known, hat⟩
            exact .inside known ((h.at?_eq_some_iff known).mp hat)
          · intro hprovides
            cases hprovides with
            | inside known declared => exact ⟨_, known, (h.at?_eq_some_iff known).mpr declared⟩
  | constant v =>
      rw [Source.HasType]
      constructor
      · rintro rfl
        exact .constant
      · intro hprovides
        cases hprovides
        rfl

theorem lookup_eq_some_iff (h : Resolved catalog steps) {p : FieldPath} {type : ValueType} :
    (resulting catalog steps).lookup p = some type ↔
      ∃ t, Results catalog steps p.head.text t ∧ t.Declares p.restNames type := by
  rw [Produced.lookup, Option.bind_eq_some_iff]
  refine exists_congr fun t => ?_
  rw [h.type?_eq_some_iff]
  exact and_congr_right fun known => h.at?_eq_some_iff known

/-- A gate passes its check if it is well formed over the steps that it may read.  That all of its
    tests name steps is asked FIRST, and again when their paths are looked up. -/
theorem checkGate_eq_ok_iff (h : Resolved catalog steps) {step : String} {gate : FieldCondition} :
    flow.checkGate limits (resulting catalog steps) step gate = .ok () ↔
      gate.WellFormed limits fun p type =>
        ∃ t, Results catalog steps p.head.text t ∧ t.Declares p.restNames type := by
  rw [FieldCondition.wellFormed_iff (.gate step flow.id) fun p type => h.lookup_eq_some_iff]
  simp only [checkGate, bind_eq_ok_iff]
  constructor
  · rintro ⟨_, hbounds, _, _, htests⟩
    exact ⟨hbounds, htests⟩
  · rintro ⟨hbounds, htests⟩
    refine ⟨(), hbounds, (), forM_eq_ok_iff.mpr fun test htest => ?_, htests⟩
    obtain ⟨type, htype, _⟩ := FieldCondition.checkTests_eq_ok_iff.mp htests test htest
    obtain ⟨t, ht, _⟩ := Option.bind_eq_some_iff.mp htype
    rw [stepType_eq_ok_iff.mpr ht]
    rfl

end Resolved

/-! ## Steps, one by one -/

/-- Fields are bound exactly once, and no others, if their names are those of the target. -/
theorem perm_names_iff {inputs : List Binding} {target : Shape} (h : target.names.Nodup) :
    (inputs.map (·.field)).Perm target.names ↔
      (inputs.map (·.field)).Nodup ∧ (∀ field ∈ target.names, ∃ b ∈ inputs, b.field = field)
        ∧ ∀ b ∈ inputs, b.field ∈ target.names := by
  constructor
  · intro hperm
    refine ⟨hperm.nodup_iff.mpr h, fun field hfield => ?_, fun b hb => ?_⟩
    · exact List.mem_map.mp (hperm.mem_iff.mpr hfield)
    · exact hperm.mem_iff.mp (List.mem_map.mpr ⟨b, hb, rfl⟩)
  · rintro ⟨honce, hcomplete, hknown⟩
    refine (List.perm_ext_iff_of_nodup honce h).mpr fun field =>
      ⟨fun hfield => ?_, fun hfield => ?_⟩
    · obtain ⟨b, hb, rfl⟩ := List.mem_map.mp hfield
      exact hknown b hb
    · exact List.mem_map.mpr (hcomplete field hfield)

/-- What a step may read once it has its result. -/
theorem resulting_take_succ {index : Nat} {step : Step} {target : Signature}
    (hstep : flow.steps[index]? = some step) (registered : catalog step.target = some target) :
    resulting catalog (flow.steps.take index) ++ [(step.name, target.output)]
      = resulting catalog (flow.steps.take (index + 1)) := by
  rw [List.take_add_one, hstep, resulting, resulting, List.filterMap_append]
  simp [registered]

/-- **One step** is admitted if it is well formed, once the names of steps are known to differ.
    Most of the parts are the same on both sides; the note, the bound fields and the sources are
    said in different ways, and that the name is new is a fact about all of the flow. -/
theorem Resolved.stepAdmitted_iff (h : Resolved catalog flow.steps)
    (hin : flow.input.defect? = none) {index : Nat} {step : Step} {target : Signature}
    (hstep : flow.steps[index]? = some step) (registered : catalog step.target = some target) :
    target.nestingDepth + 1 ≤ limits.maxNestingDepth
        ∧ flow.StepAdmitted limits (resulting catalog (flow.steps.take index)) step target ↔
      step.WellFormed flow catalog limits index target := by
  have hnames : target.input.names.Nodup :=
    Shape.nodup_of_defect? (h.sound step (List.mem_of_getElem? hstep) target registered).1
  have hfront := h.take index
  have hgate : ∀ gate, flow.checkGate limits
      (resulting catalog (flow.steps.take index) ++ [(step.name, target.output)]) step.name gate
        = .ok () ↔ _ := fun gate => by
    rw [resulting_take_succ hstep registered, (h.take (index + 1)).checkGate_eq_ok_iff]
  constructor
  · rintro ⟨hlevel, hadmitted⟩
    refine ⟨hadmitted.isIdentifier_name, hadmitted.budget_pos, fun hmessage hnone => ?_, hlevel,
      ?_, fun b hb => ?_, fun gate heq => (hgate gate).mp (hadmitted.gate gate heq)⟩
    · -- A message without a gate: the check asks for one of the two to be otherwise.
      rcases hadmitted.note_gated with hsome | hnote
      · rw [hnone] at hsome
        cases hsome
      · exact hmessage hnote
    · -- A bound field is one of the target's, because it has a type there.
      refine (perm_names_iff hnames).mpr ⟨hadmitted.bound_once, hadmitted.complete, fun b hb => ?_⟩
      obtain ⟨expected, hexpected, _⟩ := hadmitted.bound b hb
      exact Shape.mem_names_iff.mpr ⟨expected, hexpected⟩
    · -- Every source, in the words of `Assignable`.
      obtain ⟨expected, hexpected, hfits⟩ := hadmitted.bound b hb
      exact ⟨expected, Shape.mem_of_type? hexpected, (hfront.fits_iff hin).mp hfits⟩
  · intro hwell
    obtain ⟨honce, hcomplete, _⟩ := (perm_names_iff hnames).mp hwell.bound
    refine ⟨hwell.nesting, hwell.name, ?_, hwell.budget, ?_, fun b hb => ?_, honce, hcomplete,
      fun gate heq => (hgate gate).mpr (hwell.gate gate heq)⟩
    · -- That its name is new is nothing a step has by itself: the names of all steps differ.
      rw [Produced.type?_eq_none_iff, map_fst_resulting hfront.registered]
      exact nodup_map_iff_take.mp h.distinct index step hstep
    · have hmessage := hwell.gateMessage
      cases hgate : step.gate with
      | some gate => exact Or.inl rfl
      | none => exact Or.inr (by_contra fun hsome => hmessage hsome hgate)
    · obtain ⟨expected, hexpected, hfits⟩ := hwell.sources b hb
      exact ⟨expected, (Shape.type?_eq_some_iff hnames).mpr hexpected,
        (hfront.fits_iff hin).mpr hfits⟩

/-! ## Flows -/

/-- Steps that are admitted one after the other have different names. -/
theorem Resolved.of_admitted
    (hsound : ∀ target s, catalog target = some s →
      s.input.defect? = none ∧ s.output.defect? = none)
    (h : ∀ (index : Nat) (step : Step), flow.steps[index]? = some step →
      ∃ target, catalog step.target = some target
        ∧ flow.StepAdmitted limits (resulting catalog (flow.steps.take index)) step target) :
    Resolved catalog flow.steps := by
  have hregistered : ∀ step ∈ flow.steps, ∃ target, catalog step.target = some target := by
    intro step hstep
    obtain ⟨index, hindex⟩ := List.mem_iff_getElem?.mp hstep
    obtain ⟨target, htarget, _⟩ := h index step hindex
    exact ⟨target, htarget⟩
  refine ⟨hregistered, fun step _ => hsound step.target, nodup_map_iff_take.mpr ?_⟩
  intro index step hindex
  obtain ⟨_, _, hadmitted⟩ := h index step hindex
  have hfresh := Produced.type?_eq_none_iff.mp hadmitted.fresh
  rwa [map_fst_resulting fun s hs => hregistered s (List.mem_of_mem_take hs)] at hfresh

/-- A well-formed flow says outright what its steps need for their results to be known. -/
theorem WellFormed.resolved
    (hsound : ∀ target s, catalog target = some s →
      s.input.defect? = none ∧ s.output.defect? = none)
    (h : flow.WellFormed catalog limits) : Resolved catalog flow.steps := by
  refine ⟨fun step hstep => ?_, fun step _ => hsound step.target, h.distinct⟩
  obtain ⟨index, hindex⟩ := List.mem_iff_getElem?.mp hstep
  obtain ⟨target, htarget, _⟩ := h.steps index step hindex
  exact ⟨target, htarget⟩

/-- The steps of a well-formed flow are called by identifiers. -/
theorem WellFormed.isIdentifier_of_results (h : flow.WellFormed catalog limits) {n : Nat}
    {name : String} {t : ValueType} (ht : Results catalog (flow.steps.take n) name t) :
    isIdentifier name = true := by
  obtain ⟨step, hstep, rfl, _⟩ := ht
  obtain ⟨index, hindex⟩ := List.mem_iff_getElem?.mp (List.mem_of_mem_take hstep)
  obtain ⟨_, _, hwell⟩ := h.steps index step hindex
  exact hwell.name

/-- The result of a step is declared by an output type without defects, so its names are
    identifiers. -/
theorem wellNamed_of_results
    (hsound : ∀ target s, catalog target = some s →
      s.input.defect? = none ∧ s.output.defect? = none)
    {steps : List Step} {name : String} {t : ValueType} (ht : Results catalog steps name t) :
    t.WellNamed := by
  obtain ⟨step, _, _, target, htarget, rfl⟩ := ht
  exact ValueType.defect?_eq_none_iff.mp (hsound step.target target htarget).2

/-- A path that a source reads inside the result of a step can be parsed. -/
theorem parsed_of_assignable
    (hsound : ∀ target s, catalog target = some s →
      s.input.defect? = none ∧ s.output.defect? = none)
    {steps : List Step} {expected : ValueType} {name : String} {path : FieldPath}
    (h : (Source.step name (some path)).Assignable flow.input (Results catalog steps) expected) :
    path.Parsed := by
  obtain ⟨found, hprovides, _⟩ := h
  cases hprovides with
  | inside known declared => exact (wellNamed_of_results hsound known).parsed declared

/-- **A well-formed flow can be spelled.**  The paths that its gates, its bindings and its outputs
    read can all be parsed.  A gate reads a step by its name, which is an identifier, and goes on
    inside the result of the step. -/
theorem WellFormed.parsed
    (hsound : ∀ target s, catalog target = some s →
      s.input.defect? = none ∧ s.output.defect? = none)
    (h : flow.WellFormed catalog limits) :
    (∀ step ∈ flow.steps, ∀ gate, step.gate = some gate → ∀ test ∈ gate.leaves, test.path.Parsed)
      ∧ (∀ step ∈ flow.steps, ∀ b ∈ step.inputs, ∀ name path,
          b.source = .step name (some path) → path.Parsed)
      ∧ ∀ o ∈ flow.outputs, ∀ name path, o.source = .step name (some path) → path.Parsed := by
  refine ⟨fun step hstep gate hgate test htest => ?_, fun step hstep b hb name path hsource => ?_,
    fun o ho name path hsource => ?_⟩
  · -- Gates: the first name is a step's, the others are declared inside its result.
    obtain ⟨index, hindex⟩ := List.mem_iff_getElem?.mp hstep
    obtain ⟨_, _, hwell⟩ := h.steps index step hindex
    obtain ⟨type, ⟨t, known, declared⟩, _⟩ := (hwell.gate gate hgate).suited test htest
    have hrest := (wellNamed_of_results hsound known).isIdentifier_of_mem declared
    exact FieldPath.parsed_iff.mpr
      (List.forall_mem_cons.mpr ⟨h.isIdentifier_of_results known, hrest⟩)
  · -- Bindings, and below the outputs: the step is named apart from the path.
    obtain ⟨index, hindex⟩ := List.mem_iff_getElem?.mp hstep
    obtain ⟨_, _, hwell⟩ := h.steps index step hindex
    obtain ⟨expected, _, hassignable⟩ := hwell.sources b hb
    rw [hsource] at hassignable
    exact parsed_of_assignable hsound hassignable
  · have hassignable := h.outputs o ho
    rw [hsource] at hassignable
    exact parsed_of_assignable hsound hassignable

/-- Over a catalog of signatures without defects, exactly the well-formed flows are admitted, and
    the facts found out about them are theirs.  Both sides speak of the row `resulting`: the walk
    because `stepsAdmitted_iff` takes it apart, the specification because its steps are
    `Resolved`. -/
theorem check_eq_ok_iff_of_sound
    (hsound : ∀ target s, catalog target = some s →
      s.input.defect? = none ∧ s.output.defect? = none) {facts : FlowFacts} :
    flow.check catalog limits = .ok facts ↔
      flow.WellFormed catalog limits ∧ facts = flow.factsOver catalog := by
  rw [check_eq_ok_iff]
  constructor
  · rintro ⟨hsome, hfew, hin, produced, hwalk, houts, honce, hshape, hfacts, htypes⟩
    -- The walk starts at one level, which is checked with the first step: there is one.
    have hmax : 1 ≤ limits.maxNestingDepth :=
      Nat.le_trans hwalk.depth_le (hwalk.depth_le_max hsome)
    obtain ⟨hsteps, rfl, hdepth⟩ := (stepsAdmitted_iff (Nat.le_refl 1) hmax).mp hwalk
    simp only [List.nil_append] at hsteps houts htypes
    have hresolved : Resolved catalog flow.steps :=
      .of_admitted hsound fun index step hindex => by
        obtain ⟨target, htarget, _, hadmitted⟩ := hsteps index step hindex
        exact ⟨target, htarget, hadmitted⟩
    refine ⟨⟨List.length_pos_iff.mpr hsome, hfew, hmax, Shape.wellNamed_iff.mpr hin,
      Shape.wellNamed_iff.mpr hshape, hresolved.distinct, fun index step hindex => ?_, honce,
      fun o ho => (hresolved.fits_iff hin).mp (houts o ho)⟩, ?_⟩
    · obtain ⟨target, htarget, hadmitted⟩ := hsteps index step hindex
      exact ⟨target, htarget, (hresolved.stepAdmitted_iff hin hindex htarget).mp hadmitted⟩
    · -- The facts: the walk ends with the row of `resulting`, one level above its deepest target.
      cases facts
      have hone : max 1 (1 + deepest catalog flow.steps) = 1 + deepest catalog flow.steps := by
        omega
      simp only at hfacts hdepth htypes
      rw [factsOver, hfacts, hdepth, hone, htypes, map_snd_resulting]
  · rintro ⟨h, rfl⟩
    have hresolved := h.resolved hsound
    have hin := Shape.wellNamed_iff.mp h.input
    refine ⟨List.length_pos_iff.mp h.steps_pos, h.steps_le, hin, resulting catalog flow.steps,
      (stepsAdmitted_iff (Nat.le_refl 1) h.nesting_pos).mpr ⟨fun index step hindex => ?_, ?_, ?_⟩,
      fun o ho => (hresolved.fits_iff hin).mpr (h.outputs o ho), h.outputs_distinct,
      Shape.wellNamed_iff.mp h.output, rfl, (map_snd_resulting _).symm⟩
    · obtain ⟨target, htarget, hwell⟩ := h.steps index step hindex
      rw [List.nil_append]
      exact ⟨target, htarget, (hresolved.stepAdmitted_iff hin hindex htarget).mpr hwell⟩
    · rw [List.nil_append]
    · show 1 + deepest catalog flow.steps = _
      omega

end Flow

/-- **Exactly the well-formed flows are admitted** over a registry that came about by submissions,
    whatever the limits, and what is found out about them are their facts.  The limits of the
    check and those the registry grew up under need not be the same: all that is used of the
    registry is that its signatures have no defects. -/
theorem Registry.check_flow_eq_ok_iff_wellFormed (registered limits : Limits)
    (ds : List Definition) (flow : Flow) (facts : FlowFacts) :
    flow.check (ofDefinitions registered ds).signature? limits = .ok facts ↔
      flow.WellFormed (ofDefinitions registered ds).signature? limits
        ∧ facts = flow.factsOver (ofDefinitions registered ds).signature? :=
  Flow.check_eq_ok_iff_of_sound fun _ _ hs =>
    (sound_ofDefinitions registered ds).defect?_signature hs

/-- One level for the flow that is visited, and one for the visit. -/
example : (Registry.visitFlow.factsOver
    (Registry.ofDefinitions .default Registry.visitDefinitions).signature?).nestingDepth = 2 := rfl

end Verdict
