/-
  Admitted flows — what the walk of `Flow.check` makes sure of.

  1. **Sources** — the steps in front are known by a row of names and types (`Produced.type?`).
     `Source.HasType` says which type a source has then, `Source.Fits` that it may be read where
     another type is declared.

  2. **Steps** — `Flow.StepAdmitted` collects what is checked of ONE step, `Flow.StepsAdmitted`
     walks over all of them; the checks decide both (`checkSteps_eq_ok_iff`).

  3. **Flows** — `check_eq_ok_iff` opens the check of a flow, and `Flow.Admitted` is what a run may
     rely on: the claims about a step are about the steps IN FRONT of it, so they are stated for
     `produced.take index`.

  4. **More definitions** — admission asks the catalog for the targets of the flow's steps and for
     nothing else (`check_of_agrees`).  So an admitted flow stays admitted, with the same facts,
     when its targets are found in a larger catalog (`check_of_extends`).

  Core only.
-/
import Verdict.Flow.Admission

namespace Verdict

/-! ## Rows of results -/

namespace Produced

theorem type?_cons (n : String) (u : ValueType) (rest : Produced) (name : String) :
    type? ((n, u) :: rest) name = if n = name then some u else rest.type? name := by
  rw [type?, List.find?_cons]
  by_cases h : n = name
  · rw [if_pos h, h, beq_self_eq_true]
    rfl
  · rw [if_neg h, beq_false_of_ne h]
    rfl

theorem type?_eq_none_iff {produced : Produced} {name : String} :
    produced.type? name = none ↔ name ∉ produced.map (·.1) := by
  induction produced with
  | nil => exact ⟨fun _ => List.not_mem_nil, fun _ => rfl⟩
  | cons f rest ih =>
      obtain ⟨n, u⟩ := f
      rw [type?_cons, List.map_cons, List.mem_cons, not_or, ← ih]
      split
      · rename_i h
        exact ⟨nofun, fun hne => absurd h.symm hne.1⟩
      · rename_i h
        exact ⟨fun hnone => ⟨fun heq => h heq.symm, hnone⟩, fun hboth => hboth.2⟩

/-- Where all names differ, the entry of a name is the only one: to be FOUND by its name, which is
    to be the first of that name, is the same as to be a member of the row. -/
theorem type?_eq_some_iff {produced : Produced} (h : (produced.map (·.1)).Nodup) {name : String}
    {t : ValueType} : produced.type? name = some t ↔ (name, t) ∈ produced := by
  induction produced with
  | nil => exact ⟨nofun, nofun⟩
  | cons f rest ih =>
      obtain ⟨n, u⟩ := f
      rw [List.map_cons, List.nodup_cons] at h
      obtain ⟨hfresh, hrest⟩ := h
      rw [type?_cons, List.mem_cons, Prod.mk.injEq]
      split
      · rename_i heq
        subst heq
        rw [Option.some_inj]
        constructor
        · rintro rfl
          exact Or.inl ⟨rfl, rfl⟩
        · rintro (⟨_, heq⟩ | hmem)
          · exact heq.symm
          · -- A second entry of this name further behind is what `hfresh` excludes.
            exact absurd (List.mem_map.mpr ⟨_, hmem, rfl⟩) hfresh
      · rename_i hne
        rw [ih hrest]
        exact ⟨Or.inr, fun hor => hor.resolve_left fun heq => hne heq.1.symm⟩

end Produced

/-! ## Sources -/

/-- The type of a source that reads the flow's input and what the steps in front produce. -/
def Source.HasType (flow : Flow) (produced : Produced) (found : ValueType) : Source → Prop
  | .input field => flow.input.type? field = some found
  | .step name none => produced.type? name = some found
  | .step name (some path) =>
      ∃ type, produced.type? name = some type ∧ type.at? path.names = some found
  | .constant v => ValueType.of v = found

/-- A source that may be read where `expected` is declared. -/
def Source.Fits (flow : Flow) (produced : Produced) (expected : ValueType) (source : Source) :
    Prop :=
  ∃ found, source.HasType flow produced found ∧ expected.acceptsType found = true

namespace Flow

variable {flow : Flow} {catalog catalog' : Target → Option Signature} {limits : Limits}

theorem stepType_eq_ok_iff {produced : Produced} {reader : SourceReader} {name : String}
    {type : ValueType} :
    flow.stepType produced reader name = .ok type ↔ produced.type? name = some type := by
  unfold stepType
  cases produced.type? name with
  | some u => exact ⟨fun h => by cases h; rfl, fun h => by cases h; rfl⟩
  | none =>
      -- Both refusals are errors: a step further behind, and no step at all.
      by_cases hbehind : flow.steps.any (·.name == name) <;> simp [hbehind]

/-- **Sources are decided.**  The type is computed exactly if the source HAS it; every failure is
    a source that leads nowhere. -/
theorem sourceType_eq_ok_iff {produced : Produced} {reader : SourceReader} {source : Source}
    {found : ValueType} :
    flow.sourceType produced reader source = .ok found ↔ source.HasType flow produced found := by
  cases source with
  | input field =>
      rw [sourceType, Source.HasType]
      cases flow.input.type? field with
      | some u => exact ⟨fun h => by cases h; rfl, fun h => by cases h; rfl⟩
      | none =>
          constructor
          · intro h
            cases h
          · intro h
            cases h
  | step name path =>
      rw [sourceType, bind_eq_ok_iff]
      simp only [stepType_eq_ok_iff]
      cases path with
      | none =>
          constructor
          · rintro ⟨u, hu, h⟩
            cases h
            exact hu
          · intro h
            exact ⟨found, h, rfl⟩
      | some path =>
          constructor
          · rintro ⟨u, hu, h⟩
            dsimp only at h
            cases hat : u.at? path.names with
            | none =>
                -- The step is known, but nothing of it is declared under this path.
                rw [hat] at h
                cases h
            | some inner =>
                rw [hat] at h
                cases h
                exact ⟨u, hu, hat⟩
          · rintro ⟨u, hu, hat⟩
            exact ⟨u, hu, by dsimp only; rw [hat]; rfl⟩
  | constant v => exact ⟨fun h => by cases h; rfl, fun h => by cases h; rfl⟩

theorem checkSource_eq_ok_iff {produced : Produced} {reader : SourceReader}
    {expected : ValueType} {source : Source} {u : Unit} :
    flow.checkSource produced reader expected source = .ok u
      ↔ source.Fits flow produced expected := by
  rw [checkSource, bind_eq_ok_iff]
  simp only [sourceType_eq_ok_iff, ensure_eq_ok_iff, Source.Fits]

/-! ## Bindings and outputs -/

/-- A binding that the target has a field for, with a source that fits it. -/
def BindingFits (flow : Flow) (produced : Produced) (target : Shape) (b : Binding) : Prop :=
  ∃ expected, target.type? b.field = some expected ∧ b.source.Fits flow produced expected

/-- One element more of a row whose names are to differ from each other and from those in front.
    A walk that remembers the names it has seen (`f x :: seen`) asks this for one element at a
    time. -/
theorem forall_fresh_cons_iff {α β : Type} {f : α → β} {P : α → Prop} {seen : List β} {x : α}
    {xs : List α} :
    (f x ∉ seen ∧ P x) ∧ (∀ y ∈ xs, f y ∉ f x :: seen ∧ P y) ∧ (xs.map f).Nodup ↔
      ((f x ∉ seen ∧ P x) ∧ ∀ y ∈ xs, f y ∉ seen ∧ P y) ∧ f x ∉ xs.map f ∧ (xs.map f).Nodup := by
  constructor
  · rintro ⟨hx, hrest, hnodup⟩
    refine ⟨⟨hx, fun y hy => ?_⟩, fun hmem => ?_, hnodup⟩
    · exact ⟨fun hmem => (hrest y hy).1 (List.mem_cons_of_mem _ hmem), (hrest y hy).2⟩
    · -- The name comes again at some `y`, where it would already have been seen.
      obtain ⟨y, hy, heq⟩ := List.mem_map.mp hmem
      exact (hrest y hy).1 (heq ▸ List.mem_cons_self ..)
  · rintro ⟨⟨hx, hrest⟩, hfresh, hnodup⟩
    refine ⟨hx, fun y hy => ⟨fun hmem => ?_, (hrest y hy).2⟩, hnodup⟩
    rcases List.mem_cons.mp hmem with heq | hmem
    · exact hfresh (List.mem_map.mpr ⟨y, hy, heq⟩)
    · exact (hrest y hy).1 hmem

/-- The bindings of a step pass if their fields are bound once, are not bound in front of them, and
    each has a source that fits the field.  `bound` is the walk's: the fields it has seen. -/
theorem checkBindings_eq_ok_iff {produced : Produced} {step : String} {target : Shape}
    {bound : List String} {bindings : List Binding} {u : Unit} :
    flow.checkBindings produced step target bound bindings = .ok u ↔
      (∀ b ∈ bindings, b.field ∉ bound ∧ flow.BindingFits produced target b)
        ∧ (bindings.map (·.field)).Nodup := by
  induction bindings generalizing bound with
  | nil => exact ⟨fun _ => ⟨nofun, .nil⟩, fun _ => rfl⟩
  | cons b bindings ih =>
      rw [checkBindings, List.forall_mem_cons, List.map_cons, List.nodup_cons,
        ← forall_fresh_cons_iff, BindingFits]
      cases target.type? b.field with
      | none =>
          -- A field the target does not have: the walk stops, and no type can be named for it.
          exact ⟨nofun, fun ⟨⟨_, _, h, _⟩, _⟩ => nomatch h⟩
      | some expected =>
          simp only [bind_eq_ok_iff, ensure_eq_ok_iff, checkSource_eq_ok_iff, ih]
          constructor
          · rintro ⟨_, hnew, _, hfits, hrest⟩
            exact ⟨⟨by simpa using hnew, expected, rfl, hfits⟩, hrest⟩
          · rintro ⟨⟨hnew, _, heq, hfits⟩, hrest⟩
            cases heq
            exact ⟨(), by simpa using hnew, (), hfits, hrest⟩

theorem checkComplete_eq_ok_iff {step : Step} {target : Shape} {u : Unit} :
    flow.checkComplete step target = .ok u
      ↔ ∀ field ∈ target.names, ∃ b ∈ step.inputs, b.field = field := by
  simp only [checkComplete, forM_eq_ok_iff, ensure_eq_ok_iff, List.any_eq_true, beq_iff_eq]

/-- The same walk over the outputs: each name is new, and each source fits the declared type. -/
theorem checkOutputs_eq_ok_iff {produced : Produced} {named : List String}
    {outputs : List Output} {u : Unit} :
    flow.checkOutputs produced named outputs = .ok u ↔
      (∀ o ∈ outputs, o.name ∉ named ∧ o.source.Fits flow produced o.type)
        ∧ (outputs.map (·.name)).Nodup := by
  induction outputs generalizing named with
  | nil => exact ⟨fun _ => ⟨nofun, .nil⟩, fun _ => rfl⟩
  | cons o outputs ih =>
      rw [checkOutputs, List.forall_mem_cons, List.map_cons, List.nodup_cons,
        ← forall_fresh_cons_iff (f := Output.name)
          (P := fun q => q.source.Fits flow produced q.type)]
      simp only [bind_eq_ok_iff, ensure_eq_ok_iff, checkSource_eq_ok_iff, ih]
      constructor
      · rintro ⟨_, hnew, _, hfits, hrest⟩
        exact ⟨⟨by simpa using hnew, hfits⟩, hrest⟩
      · rintro ⟨⟨hnew, hfits⟩, hrest⟩
        exact ⟨(), by simpa using hnew, (), hfits, hrest⟩

/-- A gate that passes its check is within bounds, and its tests make sense for what is produced. -/
theorem checks_of_checkGate {produced : Produced} {step : String} {gate : FieldCondition}
    (h : flow.checkGate limits produced step gate = .ok ()) :
    gate.checkBounds (.gate step flow.id) limits = .ok ()
      ∧ gate.checkTests (.gate step flow.id) produced.lookup = .ok () := by
  simp only [checkGate, bind_eq_ok_iff] at h
  obtain ⟨_, hbounds, _, _, htests⟩ := h
  exact ⟨hbounds, htests⟩

/-! ## Steps -/

/-- What is checked of a step whose target has the given signature. -/
structure StepAdmitted (flow : Flow) (limits : Limits) (produced : Produced) (step : Step)
    (target : Signature) : Prop where
  isIdentifier_name : isIdentifier step.name = true
  fresh : produced.type? step.name = none
  budget_pos : step.budget ≠ some 0
  note_gated : step.gate.isSome = true ∨ step.gateMessage = none
  bound : ∀ b ∈ step.inputs, flow.BindingFits produced target.input b
  bound_once : (step.inputs.map (·.field)).Nodup
  complete : ∀ field ∈ target.input.names, ∃ b ∈ step.inputs, b.field = field
  gate : ∀ gate, step.gate = some gate →
    flow.checkGate limits (produced ++ [(step.name, target.output)]) step.name gate = .ok ()

/-- The walk over the steps, from what is produced in front of them and the nesting depth up to
    there, to what is produced after them and the nesting depth of all. -/
inductive StepsAdmitted (flow : Flow) (catalog : Target → Option Signature) (limits : Limits) :
    Produced → Nat → List Step → Produced → Nat → Prop
  | nil {produced : Produced} {depth : Nat} :
      StepsAdmitted flow catalog limits produced depth [] produced depth
  | cons {produced produced' : Produced} {depth depth' : Nat} {step : Step} {steps : List Step}
      {target : Signature}
      (registered : catalog step.target = some target)
      (shallow : max depth (target.nestingDepth + 1) ≤ limits.maxNestingDepth)
      (head : flow.StepAdmitted limits produced step target)
      (tail : StepsAdmitted flow catalog limits (produced ++ [(step.name, target.output)])
        (max depth (target.nestingDepth + 1)) steps produced' depth') :
      StepsAdmitted flow catalog limits produced depth (step :: steps) produced' depth'

theorem checkHead_eq_ok_iff {produced : Produced} {step : Step} {u : Unit} :
    flow.checkHead produced step = .ok u ↔
      isIdentifier step.name = true ∧ produced.type? step.name = none ∧ step.budget ≠ some 0
        ∧ (step.gate.isSome = true ∨ step.gateMessage = none) := by
  simp only [checkHead, bind_eq_ok_iff, ensure_eq_ok_iff, Option.isNone_iff_eq_none, bne_iff_ne,
    Bool.or_eq_true]
  exact ⟨fun ⟨_, h₁, _, h₂, _, h₃, h₄⟩ => ⟨h₁, h₂, h₃, h₄⟩,
    fun ⟨h₁, h₂, h₃, h₄⟩ => ⟨(), h₁, (), h₂, (), h₃, h₄⟩⟩

theorem checkBody_eq_ok_iff {produced produced' : Produced} {step : Step} {target : Signature} :
    flow.checkBody limits produced step target = .ok produced' ↔
      flow.checkBindings produced step.name target.input [] step.inputs = .ok ()
        ∧ flow.checkComplete step target.input = .ok ()
        ∧ (∀ gate, step.gate = some gate → flow.checkGate limits
            (produced ++ [(step.name, target.output)]) step.name gate = .ok ())
        ∧ produced' = produced ++ [(step.name, target.output)] := by
  rw [checkBody]
  simp only [bind_eq_ok_iff]
  cases step.gate with
  | none =>
      constructor
      · rintro ⟨_, hbound, _, hcomplete, h⟩
        cases h
        exact ⟨hbound, hcomplete, nofun, rfl⟩
      · rintro ⟨hbound, hcomplete, _, rfl⟩
        exact ⟨(), hbound, (), hcomplete, rfl⟩
  | some gate =>
      simp only [bind_eq_ok_iff]
      constructor
      · rintro ⟨_, hbound, _, hcomplete, _, hgate, h⟩
        cases h
        exact ⟨hbound, hcomplete, fun g hg => by cases hg; exact hgate, rfl⟩
      · rintro ⟨hbound, hcomplete, hgate, rfl⟩
        exact ⟨(), hbound, (), hcomplete, (), hgate gate rfl, rfl⟩

/-- **The walk is decided.**  `checkSteps` passes, and ends with what is produced and how deep the
    steps are nested, exactly if `StepsAdmitted` relates the same beginning to the same end.  The
    induction is on the steps; the row and the depth in front of them grow with it. -/
theorem checkSteps_eq_ok_iff {produced produced' : Produced} {depth depth' : Nat}
    {steps : List Step} :
    flow.checkSteps catalog limits produced depth steps = .ok (produced', depth')
      ↔ flow.StepsAdmitted catalog limits produced depth steps produced' depth' := by
  induction steps generalizing produced depth with
  | nil =>
      constructor
      · intro h
        cases h
        exact .nil
      · intro h
        cases h
        rfl
  | cons step steps ih =>
      rw [checkSteps, bind_eq_ok_iff]
      simp only [checkHead_eq_ok_iff]
      constructor
      · rintro ⟨_, ⟨hid, hfresh, hbudget, hnote⟩, h⟩
        split at h
        · -- The target is not registered.
          exact nomatch h
        rename_i target htarget
        simp only [bind_eq_ok_iff, ensure_eq_ok_iff, checkBody_eq_ok_iff, decide_eq_true_eq,
          checkBindings_eq_ok_iff, checkComplete_eq_ok_iff] at h
        obtain ⟨_, hshallow, _, ⟨⟨hbound, honce⟩, hcomplete, hgate, rfl⟩, hrest⟩ := h
        exact .cons htarget hshallow
          ⟨hid, hfresh, hbudget, hnote, fun b hb => (hbound b hb).2, honce, hcomplete, hgate⟩
          (ih.mp hrest)
      · intro h
        cases h with
        | @cons _ _ _ _ _ _ target registered shallow head tail =>
            refine ⟨(), ⟨head.isIdentifier_name, head.fresh, head.budget_pos, head.note_gated⟩, ?_⟩
            rw [registered]
            simp only [bind_eq_ok_iff, ensure_eq_ok_iff, checkBody_eq_ok_iff, decide_eq_true_eq,
              checkBindings_eq_ok_iff, checkComplete_eq_ok_iff]
            exact ⟨(), shallow, _,
              ⟨⟨fun b hb => ⟨nofun, head.bound b hb⟩, head.bound_once⟩, head.complete, head.gate,
                rfl⟩, ih.mpr tail⟩

/-- What a walk produces is what was there, then one entry for each step. -/
theorem StepsAdmitted.produced_eq {produced produced' : Produced} {depth depth' : Nat}
    {steps : List Step}
    (h : flow.StepsAdmitted catalog limits produced depth steps produced' depth') :
    ∃ rest : Produced, produced' = produced ++ rest ∧ rest.map (·.1) = steps.map (·.name) := by
  induction h with
  | nil => exact ⟨[], by simp, rfl⟩
  | @cons _ _ _ _ step _ target _ _ _ _ ih =>
      obtain ⟨rest, hrest, hnames⟩ := ih
      refine ⟨(step.name, target.output) :: rest, ?_, ?_⟩
      · rw [hrest, List.append_assoc]
        rfl
      · rw [List.map_cons, List.map_cons, hnames]

theorem StepsAdmitted.depth_le {produced produced' : Produced} {depth depth' : Nat}
    {steps : List Step}
    (h : flow.StepsAdmitted catalog limits produced depth steps produced' depth') :
    depth ≤ depth' := by
  induction h with
  | nil => exact Nat.le_refl _
  | cons _ _ _ _ ih => exact Nat.le_trans (Nat.le_max_left _ _) ih

/-- Every step of a walk is admitted after what is produced in front of it, and its target is
    nested less deep than all of them together. -/
theorem StepsAdmitted.step {produced produced' : Produced} {depth depth' : Nat}
    {steps : List Step}
    (h : flow.StepsAdmitted catalog limits produced depth steps produced' depth')
    {index : Nat} {step : Step} (hstep : steps[index]? = some step) :
    ∃ target, catalog step.target = some target ∧ target.nestingDepth + 1 ≤ depth'
      ∧ flow.StepAdmitted limits (produced'.take (produced.length + index)) step target
      ∧ produced'[produced.length + index]? = some (step.name, target.output) := by
  induction h generalizing index with
  | nil => exact nomatch hstep
  | @cons produced produced' _ _ head steps target registered _ admitted tail ih =>
      obtain ⟨rest, hrest, _⟩ := tail.produced_eq
      cases index with
      | zero =>
          -- The head: what is produced in front of it is where the walk began.
          cases hstep
          have hdepth := Nat.le_trans (Nat.le_max_right _ _) tail.depth_le
          refine ⟨target, registered, hdepth, ?_, ?_⟩
          · rw [hrest, List.append_assoc, Nat.add_zero, List.take_left]
            exact admitted
          · rw [hrest, List.append_assoc, Nat.add_zero, List.getElem?_append_right (Nat.le_refl _),
              Nat.sub_self]
            rfl
      | succ index =>
          -- Behind the head the row is one entry longer, and the index one smaller.
          obtain ⟨other, hother⟩ := ih hstep
          rw [List.length_append, List.length_singleton, Nat.add_assoc, Nat.add_comm 1] at hother
          exact ⟨other, hother⟩

/-! ## Flows -/

/-- **The check of a flow, opened once.**  The walk starts with nothing produced and ONE level of
    nesting, the flow's own; what it ends with is what the outputs are checked against and what
    the facts report. -/
theorem check_eq_ok_iff {facts : FlowFacts} :
    flow.check catalog limits = .ok facts ↔
      flow.steps ≠ [] ∧ flow.steps.length ≤ limits.maxSteps ∧ flow.input.defect? = none
        ∧ ∃ produced, flow.StepsAdmitted catalog limits [] 1 flow.steps produced facts.nestingDepth
          ∧ (∀ o ∈ flow.outputs, o.source.Fits flow produced o.type)
          ∧ (flow.outputs.map (·.name)).Nodup
          ∧ flow.outputShape.defect? = none
          ∧ facts.outputShape = flow.outputShape ∧ facts.stepOutputs = produced.map (·.2) := by
  simp only [check, bind_eq_ok_iff, ensure_eq_ok_iff, forbid_eq_ok_iff, Option.map_eq_none_iff,
    decide_eq_true_eq, Bool.not_eq_true', List.isEmpty_eq_false_iff]
  constructor
  · rintro ⟨_, hsome, _, hfew, _, hin, ⟨produced, depth⟩, hsteps, _, houts, _, hshape, h⟩
    cases h
    obtain ⟨hfits, honce⟩ := checkOutputs_eq_ok_iff.mp houts
    exact ⟨hsome, hfew, hin, produced, checkSteps_eq_ok_iff.mp hsteps,
      fun o ho => (hfits o ho).2, honce, hshape, rfl, rfl⟩
  · rintro ⟨hsome, hfew, hin, produced, hsteps, hfits, honce, hshape, hfacts, htypes⟩
    refine ⟨(), hsome, (), hfew, (), hin, (produced, facts.nestingDepth),
      checkSteps_eq_ok_iff.mpr hsteps, (),
      checkOutputs_eq_ok_iff.mpr ⟨fun o ho => ⟨nofun, hfits o ho⟩, honce⟩, (), hshape, ?_⟩
    rw [← hfacts, ← htypes]
    rfl

/-- The steps of a flow with the result types that its admission found out. -/
def produced (flow : Flow) (facts : FlowFacts) : Produced :=
  (flow.steps.map (·.name)).zip facts.stepOutputs

/-- What a run of a flow relies on. -/
structure Admitted (flow : Flow) (catalog : Target → Option Signature) (limits : Limits)
    (facts : FlowFacts) : Prop where
  step : ∀ index step, flow.steps[index]? = some step →
    ∃ target, catalog step.target = some target ∧ target.nestingDepth + 1 ≤ facts.nestingDepth
      ∧ flow.StepAdmitted limits ((flow.produced facts).take index) step target
      ∧ (flow.produced facts)[index]? = some (step.name, target.output)
  length_stepOutputs : facts.stepOutputs.length = flow.steps.length
  outputs : ∀ o ∈ flow.outputs, o.source.Fits flow (flow.produced facts) o.type
  outputs_once : (flow.outputs.map (·.name)).Nodup
  outputShape : facts.outputShape = flow.outputShape
  defect?_outputShape : flow.outputShape.defect? = none

/-- A checked flow is admitted: all that the walk found out about the steps, index by index, said of
    the row `flow.produced facts` that the facts alone determine. -/
theorem Admitted.of_check {facts : FlowFacts} (h : flow.check catalog limits = .ok facts) :
    flow.Admitted catalog limits facts := by
  obtain ⟨_, _, _, produced, hsteps, houts, honce, hshape, hfacts, htypes⟩ := check_eq_ok_iff.mp h
  obtain ⟨rest, hrest, hnames⟩ := hsteps.produced_eq
  rw [List.nil_append] at hrest
  subst hrest
  -- The row can be put together again from the names of the steps and the types in the facts.
  have hproduced : flow.produced facts = produced := by
    rw [Flow.produced, htypes, ← hnames]
    have hzip := List.zip_unzip produced
    rwa [List.unzip_eq_map] at hzip
  have hlength : facts.stepOutputs.length = flow.steps.length := by
    have := congrArg List.length hnames
    rw [List.length_map, List.length_map] at this
    rw [htypes, List.length_map, this]
  refine ⟨fun index step hstep => ?_, hlength, hproduced ▸ houts, honce, hfacts, hshape⟩
  have hone := hsteps.step hstep
  rw [List.length_nil, Nat.zero_add] at hone
  rw [hproduced]
  exact hone

/-! ## Nesting and results -/

/-- How deep flows are nested in the deepest target of a row of steps. -/
def deepest (catalog : Target → Option Signature) (steps : List Step) : Nat :=
  (steps.map fun step => (catalog step.target).elim 0 (·.nestingDepth)).foldr max 0

theorem deepest_cons {step : Step} {target : Signature} (h : catalog step.target = some target)
    (steps : List Step) :
    deepest catalog (step :: steps) = max target.nestingDepth (deepest catalog steps) := by
  rw [deepest, List.map_cons, List.foldr_cons, h]
  rfl

/-- The walk arrives at one level more than its deepest target, or stays where it began if that is
    deeper. -/
theorem StepsAdmitted.depth_eq {produced produced' : Produced} {depth depth' : Nat}
    {steps : List Step}
    (h : flow.StepsAdmitted catalog limits produced depth steps produced' depth')
    (hpos : 0 < depth) : depth' = max depth (1 + deepest catalog steps) := by
  induction h with
  | nil => exact (Nat.max_eq_left hpos).symm
  | @cons _ _ depth _ step steps target registered _ _ _ ih =>
      have htail := ih (by omega)
      rw [deepest_cons registered]
      omega

/-- The walk stays within the limit. -/
theorem StepsAdmitted.depth_le_max {produced produced' : Produced} {depth depth' : Nat}
    {steps : List Step}
    (h : flow.StepsAdmitted catalog limits produced depth steps produced' depth')
    (hsteps : steps ≠ []) : depth' ≤ limits.maxNestingDepth := by
  induction h with
  | nil => exact absurd rfl hsteps
  | @cons _ _ _ _ _ steps _ _ shallow _ tail ih =>
      cases steps with
      | nil =>
          cases tail
          exact shallow
      | cons next steps => exact ih (List.cons_ne_nil next steps)

/-- The walk produces the output types of the targets, as the catalog has them. -/
theorem StepsAdmitted.outputs_eq {produced produced' : Produced} {depth depth' : Nat}
    {steps : List Step}
    (h : flow.StepsAdmitted catalog limits produced depth steps produced' depth') :
    produced'.map (some ·.2)
      = produced.map (some ·.2)
        ++ steps.map fun step => (catalog step.target).map (·.output) := by
  induction h with
  | nil => rw [List.map_nil, List.append_nil]
  | @cons _ _ _ _ step steps target registered _ _ _ ih =>
      have hstep : (catalog step.target).map (·.output) = some target.output := by
        rw [registered, Option.map_some]
      rw [ih, List.map_append, List.append_assoc, List.map_cons (l := steps), hstep]
      rfl

/-! ## More definitions -/

/-- The walk looks up the targets of its steps and nothing else. -/
theorem StepsAdmitted.of_agrees {produced produced' : Produced} {depth depth' : Nat}
    {steps : List Step}
    (hagrees : ∀ step ∈ steps, ∀ s, catalog step.target = some s → catalog' step.target = some s)
    (h : flow.StepsAdmitted catalog limits produced depth steps produced' depth') :
    flow.StepsAdmitted catalog' limits produced depth steps produced' depth' := by
  induction h with
  | nil => exact .nil
  | cons registered shallow head _ ih =>
      obtain ⟨hhead, htail⟩ := List.forall_mem_cons.mp hagrees
      exact .cons (hhead _ registered) shallow head (ih htail)

/-- **Only the targets count.**  An admitted flow is admitted, with the same facts, over every
    catalog that has the same signatures for the targets of its steps. -/
theorem check_of_agrees {facts : FlowFacts}
    (hagrees : ∀ step ∈ flow.steps, ∀ s,
      catalog step.target = some s → catalog' step.target = some s)
    (h : flow.check catalog limits = .ok facts) : flow.check catalog' limits = .ok facts := by
  obtain ⟨hsome, hfew, hin, produced, hsteps, hrest⟩ := check_eq_ok_iff.mp h
  exact check_eq_ok_iff.mpr ⟨hsome, hfew, hin, produced, hsteps.of_agrees hagrees, hrest⟩

/-- **An admitted flow stays admitted**, with the same facts, over a larger catalog. -/
theorem check_of_extends {facts : FlowFacts}
    (hext : ∀ target s, catalog target = some s → catalog' target = some s)
    (h : flow.check catalog limits = .ok facts) : flow.check catalog' limits = .ok facts :=
  check_of_agrees (fun step _ => hext step.target) h

end Flow

end Verdict
