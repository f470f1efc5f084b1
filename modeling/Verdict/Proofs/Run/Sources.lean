/-
  Sources of a run — bindings and outputs are always read.

  1. **Invariant** — `Context.Typed`: the entries of the context stand under the names of the steps
     in front, hold values of their result types, and nothing in them is left to widen.  A value
     gets into the context only after it was accepted, and only widened.

  2. **Sources** — under the invariant every source that admission has let through has a value of
     the type that is expected of it (`resolve?_of_fits`).

  3. **Records** — so bindings and outputs are always read (`bindInputs_eq_ok`,
     `projectOutputs_eq_ok`), into records that conform: they fail for NO answer of any target.
-/
import Mathlib.Data.List.Forall2
import Verdict.Proofs.Conformance
import Verdict.Proofs.Flow.Admission
import Verdict.Run.Execution

namespace Verdict.Run

/-! ## Typed contexts -/

/-- An entry of a context that a step with this name and result type has left. -/
def EntryFits (step : String × ValueType) (entry : String × Value) : Prop :=
  entry.1 = step.1 ∧ Conforms step.2 entry.2 ∧ entry.2.Widened step.2

/-- A context that the given steps have left. -/
def Context.Typed (produced : Produced) (context : Context) : Prop :=
  List.Forall₂ EntryFits produced context.entries

theorem Context.Typed.empty : Context.Typed [] .empty := .nil

theorem Context.Typed.length_eq {produced : Produced} {context : Context}
    (h : context.Typed produced) : produced.length = context.length :=
  List.Forall₂.length_eq h

/-- Rows that are related entry by entry, under the same names, find related entries. -/
theorem find?_rel {α β : Type} {R : String × α → String × β → Prop}
    (hname : ∀ x y, R x y → y.1 = x.1) {xs : List (String × α)} {ys : List (String × β)}
    (h : List.Forall₂ R xs ys) (name : String) :
    Option.Rel R (xs.find? (·.1 == name)) (ys.find? (·.1 == name)) := by
  induction h with
  | nil => exact .none
  | @cons x y _ _ hxy _ ih =>
      rw [List.find?_cons, List.find?_cons, hname x y hxy]
      cases x.1 == name with
      | true => exact .some hxy
      | false => exact ih

/-- A step whose type is known has left a value of it. -/
theorem Context.Typed.get? {produced : Produced} {context : Context} (h : context.Typed produced)
    {name : String} {t : ValueType} (ht : produced.type? name = some t) :
    ∃ v, context.get? name = some v ∧ Conforms t v := by
  obtain ⟨step, hstep, rfl⟩ := Option.map_eq_some_iff.mp ht
  have hrel := find?_rel (fun _ _ hfits => hfits.1) h name
  rw [hstep] at hrel
  unfold Context.get?
  generalize context.entries.find? (·.1 == name) = found at hrel ⊢
  cases hrel with
  | some hfits => exact ⟨_, rfl, hfits.2.1⟩

/-- **One step** keeps a context typed: an accepted value is stored as it widens. -/
theorem Context.Typed.push {produced : Produced} {context : Context} (h : context.Typed produced)
    {expected : ValueType} (hdefect : expected.defect? = none) {v : Value}
    (hv : Conforms expected v) (name : String) :
    (context.push name (expected.coerce v)).Typed (produced ++ [(name, expected)]) := by
  refine List.rel_append h (.cons ⟨rfl, ?_, ?_⟩ .nil)
  · exact hv.widenTo (.of_defect? hdefect)
  · exact Value.widened_widenTo expected v

/-! ## Sources -/

/-- **A source has a value** of the type that is expected of it, if admission has let it through.
    What is found has the type that was declared THERE, and a value of this type is one of the type
    that is expected, which may be wider. -/
theorem resolve?_of_fits {flow : Flow} {produced : Produced} {input : Record} {context : Context}
    {expected : ValueType} {source : Source}
    (hin : Conforms (.record flow.input) (.record input)) (hctx : context.Typed produced)
    (hdefect : expected.defect? = none) (h : source.Fits flow produced expected) :
    ∃ v, resolve? input context source = some v ∧ Conforms expected v := by
  obtain ⟨found, htype, hacc⟩ := h
  cases source with
  | input field =>
      -- The input conforms, and the field is declared.
      obtain ⟨v, hv, hconf⟩ := hin.get? htype
      exact ⟨v, hv, .of_acceptsType (.of_defect? hdefect) hacc hconf⟩
  | step name path =>
      -- The step stands in front, so the context has its result.
      cases path with
      | none =>
          obtain ⟨v, hv, hconf⟩ := hctx.get? htype
          exact ⟨v, hv, .of_acceptsType (.of_defect? hdefect) hacc hconf⟩
      | some path =>
          obtain ⟨t, ht, hat⟩ := htype
          obtain ⟨v, hv, hconf⟩ := hctx.get? ht
          obtain ⟨w, hw, hfound⟩ := hconf.at? hat
          exact ⟨w, Option.bind_eq_some_iff.mpr ⟨v, hv, hw⟩,
            .of_acceptsType (.of_defect? hdefect) hacc hfound⟩
  | constant v =>
      -- The type that admission has found is the one made from the value.
      subst htype
      exact ⟨v, rfl, .of_acceptsType_of (.of_defect? hdefect) hacc⟩

/-- Every value of a record is that of a source for its field; the fields are in order. -/
structure Gathered (input : Record) (context : Context) (sources : List (String × Source))
    (r : Record) : Prop where
  values : ∀ name v, r.get? name = some v →
    ∃ p ∈ sources, p.1 = name ∧ resolve? input context p.2 = some v
  ascending : r.names.Pairwise (· < ·)

section

variable {input : Record} {context : Context} {sources : List (String × Source)}

theorem Gathered.nil : Gathered input context sources .nil := by
  refine ⟨fun name v h => ?_, .nil⟩
  cases h

theorem Gathered.insert {r : Record} (h : Gathered input context sources r)
    {p : String × Source} (hp : p ∈ sources) {v : Value}
    (hv : resolve? input context p.2 = some v) :
    Gathered input context sources (r.insert p.1 v) := by
  refine ⟨fun name w hw => ?_, Record.pairwise_names_insert h.ascending p.1 v⟩
  rw [Record.get?_insert] at hw
  split at hw
  · rename_i heq
    cases hw
    exact ⟨p, hp, heq, hv⟩
  · exact h.values name w hw

/-- The sources that are left are put onto a record that is gathered from the others.  The induction
    is along them; that all have values keeps the fold from stopping early. -/
theorem foldlM_gathered {put : Record → String × Source → Except RunError Record}
    (hput : ∀ r p v, resolve? input context p.2 = some v → put r p = .ok (r.insert p.1 v))
    (hvalues : ∀ p ∈ sources, ∃ v, resolve? input context p.2 = some v)
    {rest : List (String × Source)} (hsub : rest ⊆ sources) {r₀ : Record}
    (h : Gathered input context sources r₀) :
    ∃ r, rest.foldlM put r₀ = .ok r ∧ Gathered input context sources r
      ∧ ∀ name, name ∈ r.names ↔ name ∈ r₀.names ∨ name ∈ rest.map (·.1) := by
  induction rest generalizing r₀ with
  | nil => exact ⟨r₀, rfl, h, fun name => by simp⟩
  | cons p rest ih =>
      have hp : p ∈ sources := hsub (List.mem_cons_self ..)
      obtain ⟨v, hv⟩ := hvalues p hp
      obtain ⟨r, hr, hgathered, hnames⟩ :=
        ih (fun q hq => hsub (List.mem_cons_of_mem _ hq)) (h.insert hp hv)
      refine ⟨r, ?_, hgathered, fun name => ?_⟩
      · rw [List.foldlM_cons, hput r₀ p v hv]
        exact hr
      · rw [hnames, Record.mem_names_insert, List.map_cons, List.mem_cons, or_assoc, or_left_comm]

/-- A row of sources that all have values is gathered into a record with exactly their names. -/
theorem gather_eq_ok (h : ∀ p ∈ sources, ∃ v, resolve? input context p.2 = some v)
    (reader : String → String) (index : Nat) :
    ∃ r, gather input context reader index sources = .ok r ∧ Gathered input context sources r
      ∧ ∀ name, name ∈ r.names ↔ name ∈ sources.map (·.1) := by
  obtain ⟨put, hgather, hput⟩ : ∃ put : Record → String × Source → Except RunError Record,
      gather input context reader index sources = sources.foldlM put .nil
        ∧ ∀ r p v, resolve? input context p.2 = some v → put r p = .ok (r.insert p.1 v) := by
    refine ⟨_, rfl, fun r p v hv => ?_⟩
    dsimp only
    rw [hv]
  obtain ⟨r, hr, hgathered, hnames⟩ :=
    foldlM_gathered hput h (List.Subset.refl sources) Gathered.nil
  refine ⟨r, hgather.trans hr, hgathered, fun name => (hnames name).trans ?_⟩
  exact or_iff_right List.not_mem_nil

end

/-- **Gathering by a shape.**  Sources that fit the fields of a shape, one at least for each of its
    names, are gathered into a record that conforms to it. -/
theorem gather_conforms {flow : Flow} {produced : Produced} {input : Record} {context : Context}
    {shape : Shape} {sources : List (String × Source)}
    (hin : Conforms (.record flow.input) (.record input)) (hctx : context.Typed produced)
    (hdefect : shape.defect? = none)
    (hfits : ∀ p ∈ sources, ∃ t, shape.type? p.1 = some t ∧ p.2.Fits flow produced t)
    (hcomplete : ∀ name ∈ shape.names, name ∈ sources.map (·.1)) (reader : String → String)
    (index : Nat) :
    ∃ r, gather input context reader index sources = .ok r
      ∧ Conforms (.record shape) (.record r)
      ∧ (∀ name, name ∈ r.names ↔ name ∈ sources.map (·.1))
      ∧ r.names.Pairwise (· < ·) := by
  -- Each source has a value of the type that the shape declares for its field.
  have hread : ∀ p ∈ sources, ∃ t v, shape.type? p.1 = some t
      ∧ resolve? input context p.2 = some v ∧ Conforms t v := by
    intro p hp
    obtain ⟨t, ht, hfit⟩ := hfits p hp
    obtain ⟨v, hv, hconf⟩ := resolve?_of_fits hin hctx (Shape.defect?_of_type? hdefect ht) hfit
    exact ⟨t, v, ht, hv, hconf⟩
  have hvalues : ∀ p ∈ sources, ∃ v, resolve? input context p.2 = some v := by
    intro p hp
    obtain ⟨_, v, _, hv, _⟩ := hread p hp
    exact ⟨v, hv⟩
  obtain ⟨r, hr, hgathered, hnames⟩ := gather_eq_ok hvalues reader index
  have hfield : ∀ name v, r.get? name = some v →
      ∃ t, shape.type? name = some t ∧ Conforms t v := by
    intro name v hv
    obtain ⟨p, hp, rfl, hpv⟩ := hgathered.values name v hv
    obtain ⟨t, w, ht, hw, hconf⟩ := hread p hp
    cases hw.symm.trans hpv
    exact ⟨t, ht, hconf⟩
  refine ⟨r, hr, .ofFields (fun f hf => ?_) (fun n hn => ?_), hnames, hgathered.ascending⟩
  · -- A declared field has a source, and the value of one.
    have htype := (Shape.type?_eq_some_iff (Shape.nodup_of_defect? hdefect)).mpr hf
    have hmem := (hnames f.1).mpr (hcomplete f.1 (Shape.mem_names_iff.mpr ⟨_, htype⟩))
    obtain ⟨v, hv⟩ := Record.mem_names_iff.mp hmem
    obtain ⟨t, ht, hconf⟩ := hfield _ _ hv
    cases htype.symm.trans ht
    exact ⟨v, hv, hconf⟩
  · -- A field of the record is that of a source, and so it is declared.
    obtain ⟨v, hv⟩ := Record.mem_names_iff.mp hn
    obtain ⟨t, ht, _⟩ := hfield _ _ hv
    exact Shape.mem_names_iff.mpr ⟨t, ht⟩

/-! ## Bindings and outputs -/

/-- **Bindings are always read**, into a record that conforms to the target's input: every binding
    fits the field it is made for, and every declared field has a binding. -/
theorem bindInputs_eq_ok {flow : Flow} {limits : Limits} {produced : Produced} {step : Step}
    {target : Signature} {input : Record} {context : Context} (index : Nat)
    (hin : Conforms (.record flow.input) (.record input)) (hctx : context.Typed produced)
    (hstep : flow.StepAdmitted limits produced step target)
    (hdefect : target.input.defect? = none) :
    ∃ bound, bindInputs step index input context = .ok bound
      ∧ target.input.check bound = .ok () := by
  have hfits : ∀ p ∈ step.inputs.map (fun b => (b.field, b.source)),
      ∃ t, target.input.type? p.1 = some t ∧ p.2.Fits flow produced t := by
    intro p hp
    obtain ⟨b, hb, rfl⟩ := List.mem_map.mp hp
    exact hstep.bound b hb
  have hcomplete : ∀ name ∈ target.input.names,
      name ∈ (step.inputs.map fun b => (b.field, b.source)).map (·.1) := by
    intro name hname
    obtain ⟨b, hb, rfl⟩ := hstep.complete name hname
    rw [List.map_map]
    exact List.mem_map.mpr ⟨b, hb, rfl⟩
  obtain ⟨bound, hbound, hconf, _⟩ :=
    gather_conforms hin hctx hdefect hfits hcomplete (fun _ => step.name) index
  exact ⟨bound, hbound, Shape.check_eq_ok_iff.mpr hconf⟩

/-- **Outputs are always read** once all steps are completed, into a record with exactly the
    declared names that conforms to the output shape and has nothing left to widen. -/
theorem projectOutputs_eq_ok {flow : Flow} {catalog : Target → Option Signature} {limits : Limits}
    {facts : FlowFacts} {input : Record} {context : Context}
    (hadm : flow.Admitted catalog limits facts)
    (hin : Conforms (.record flow.input) (.record input))
    (hctx : context.Typed (flow.produced facts)) :
    ∃ output, projectOutputs flow input context = .ok output
      ∧ Conforms (.record facts.outputShape) (.record output)
      ∧ (Value.record output).Widened (.record facts.outputShape)
      ∧ output.names.Perm (flow.outputs.map (·.name)) := by
  rw [hadm.outputShape]
  have hdefect := hadm.defect?_outputShape
  have htoList : flow.outputShape.toList = flow.outputs.map fun o => (o.name, o.type) :=
    Shape.toList_ofList _
  have hfits : ∀ p ∈ flow.outputs.map (fun o => (o.name, o.source)),
      ∃ t, flow.outputShape.type? p.1 = some t ∧ p.2.Fits flow (flow.produced facts) t := by
    intro p hp
    obtain ⟨o, ho, rfl⟩ := List.mem_map.mp hp
    refine ⟨o.type, ?_, hadm.outputs o ho⟩
    rw [Shape.type?_eq_some_iff (Shape.nodup_of_defect? hdefect), htoList]
    exact List.mem_map.mpr ⟨o, ho, rfl⟩
  have hcomplete : ∀ name ∈ flow.outputShape.names,
      name ∈ (flow.outputs.map fun o => (o.name, o.source)).map (·.1) := by
    intro name hname
    rw [Shape.names, htoList, List.map_map] at hname
    rwa [List.map_map]
  obtain ⟨r, hr, hconf, hnames, hasc⟩ :=
    gather_conforms hin hctx hdefect hfits hcomplete ("output." ++ ·) flow.steps.length
  -- It is read, it conforms, nothing is left to widen, and it has each declared name once.
  refine ⟨r.widenTo flow.outputShape, ?_, ?_, ?_, ?_⟩
  · rw [projectOutputs, hr]
    rfl
  · exact hconf.widenTo (.of_defect? ((ValueType.defect?_record _).trans hdefect))
  · exact Value.widened_widenTo (.record flow.outputShape) (.record r)
  · rw [Record.names_widenTo, List.perm_ext_iff_of_nodup (Record.nodup_names hasc)
      hadm.outputs_once]
    intro name
    rw [hnames, List.map_map]
    rfl

end Verdict.Run
