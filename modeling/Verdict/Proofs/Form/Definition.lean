/-
  Definitions read back from their forms — tables, flows and limits.

  1. **Parts** — an object is asked for its parts by name, so of a row of parts only the first one
     of each name counts (`required_cons`, `part?_append`).  A part that is left out when there is
     nothing to say is missing exactly then (`part?_unlessNone`), and a missing part is read as
     not said (`optional_of_part?`).

  2. **What can be stored** — a definition is `Storable` if all its floats are finite, all its paths
     can be parsed and all its records are in order; limits are if they fit 64 bits.  Budgets need
     no condition: their type holds nothing that a form could lose.

  3. **Theorem** — `forms_read_back`: everything that can be stored is read back as it was, from
     values to whole flows, and what is not said leaves no part in the form.
-/
import Verdict.Form.Definition
import Verdict.Proofs.Form.Condition

namespace Verdict

/-! ## Parts of an object -/

namespace Form

section

variable {α : Type} {read : Form → Option α} {write : α → Form} {n name : String} {form : Form}
  {parts others : List (String × Form)}

@[simp]
theorem parts?_object : (object parts).parts? = some parts := rfl

/-- The first part of a name counts. -/
theorem part?_cons : part? ((n, form) :: parts) name = if n = name then some form
    else part? parts name := by
  unfold part?
  rw [List.find?_cons]
  by_cases h : n = name
  · rw [if_pos h, beq_iff_eq.mpr h]
    rfl
  · rw [if_neg h, beq_eq_false_iff_ne.mpr h]

/-- A part that has to be there is read where its name stands first. -/
@[simp]
theorem required_cons : required read ((n, form) :: parts) name = if n = name then read form
    else required read parts name := by
  unfold required
  rw [part?_cons]
  split <;> rfl

theorem required_of_part? {x : α} (hpart : part? parts name = some form)
    (hread : read form = some x) : required read parts name = some x := by
  rw [required, hpart, Option.bind_some, hread]

theorem part?_append :
    part? (parts ++ others) name = (part? parts name).or (part? others name) := by
  unfold part?
  rw [List.find?_append]
  cases parts.find? (·.1 == name) <;> rfl

/-- There is a part exactly if there is something to say. -/
theorem part?_unlessNone (x : Option α) :
    part? (unlessNone write n x) name = if n = name then x.map write else none := by
  cases x with
  | none => exact (ite_self none).symm
  | some y => exact part?_cons

/-- What may be missing is read if it is there, unless it is null: a part that is null is taken as
    not said. -/
theorem optional_of_ne_null {x : α} (hpart : part? parts name = some form) (hnull : form ≠ null)
    (hread : read form = some x) : optional read parts name = some (some x) := by
  unfold optional
  rw [hpart]
  split
  · contradiction
  · rename_i heq
    exact absurd (Option.some.inj heq) hnull
  · rename_i heq
    rw [← Option.some.inj heq, hread]
    rfl

/-- **What may be missing** is read back, whether it is there or not.  That nothing is written as
    null is what keeps the two apart. -/
theorem optional_of_part? {x : Option α} (hpart : part? parts name = x.map write)
    (hread : ∀ y, x = some y → write y ≠ null ∧ read (write y) = some y) :
    optional read parts name = some x := by
  cases x with
  | none =>
      unfold optional
      rw [hpart]
      rfl
  | some y =>
      obtain ⟨hnull, hy⟩ := hread y rfl
      exact optional_of_ne_null hpart hnull hy

end

/-! ## Rows and numbers -/

/-- **A row** is read back if its entries are. -/
theorem listOf?_map {α : Type} {read : Form → Option α} {write : α → Form} {xs : List α}
    (h : ∀ x ∈ xs, read (write x) = some x) : listOf? read (.list (xs.map write)) = some xs := by
  show (xs.map write).mapM read = some xs
  induction xs with
  | nil => rfl
  | cons x xs ih =>
      obtain ⟨hx, hxs⟩ := List.forall_mem_cons.mp h
      rw [List.map_cons, List.mapM_cons, hx, ih hxs]
      rfl

/-- A number of 64 bits is read back from the unbounded integer that it is written as. -/
theorem natural?_int {n : Nat} (h : n < UInt64.size) : natural? (.int n) = some n := by
  have hfits : (0 : Int) ≤ n ∧ (n : Int) < UInt64.size := ⟨Int.natCast_nonneg n, Int.ofNat_lt.mpr h⟩
  show (if (0 : Int) ≤ n ∧ (n : Int) < UInt64.size then some (n : Int).toNat else none) = some n
  rw [if_pos hfits, Int.toNat_natCast]

theorem float?_ofFloat {x : Float} (h : Decimal.isFinite x = true) :
    float? (ofFloat x) = some x := by
  rw [ofFloat_of_isFinite h]
  rfl

end Form

/-! ## What can be stored -/

/-- A result whose form says all of it. -/
def RuleResult.Storable : RuleResult → Prop
  | literal v => v.Storable
  | linear field coefficient offset =>
      field.Parsed ∧ Decimal.isFinite coefficient = true ∧ Decimal.isFinite offset = true

/-- A rule whose form says all of it. -/
structure Rule.Storable (r : Rule) : Prop where
  condition : FieldCondition.Storable r.condition
  result : r.result.Storable

/-- A table whose form says all of it. -/
def Table.Storable (t : Table) : Prop := ∀ r ∈ t.rules, r.Storable

/-- A source whose form says all of it. -/
def Source.Storable : Source → Prop
  | constant v => v.Storable
  | input _ => True
  | step _ path => ∀ p, path = some p → p.Parsed

/-- A step whose form says all of it. -/
structure Step.Storable (s : Step) : Prop where
  inputs : ∀ b ∈ s.inputs, b.source.Storable
  gate : ∀ g, s.gate = some g → FieldCondition.Storable g

/-- A flow whose form says all of it. -/
structure Flow.Storable (flow : Flow) : Prop where
  steps : ∀ s ∈ flow.steps, s.Storable
  outputs : ∀ o ∈ flow.outputs, o.source.Storable

/-- Limits whose form says all of them: each fits 64 bits. -/
structure Limits.Storable (limits : Limits) : Prop where
  maxRules : limits.maxRules < UInt64.size
  maxSteps : limits.maxSteps < UInt64.size
  maxNestingDepth : limits.maxNestingDepth < UInt64.size
  maxConditionDepth : limits.maxConditionDepth < UInt64.size
  maxConditionNodes : limits.maxConditionNodes < UInt64.size

/-! ## Tables -/

/-- **A result** is read back: a literal as a value, a linear function from its three parts. -/
theorem RuleResult.ofForm?_toForm {result : RuleResult} (h : result.Storable) :
    ofForm? result.toForm = some result := by
  cases result with
  | literal v =>
      rw [toForm, ofForm?, Value.Storable.ofForm?_eq h]
      rfl
  | linear field coefficient offset =>
      obtain ⟨hparsed, hcoefficient, hoffset⟩ := h
      have hfield := FieldPath.ofForm?_toForm_iff.mpr hparsed
      simp [toForm, ofForm?, hfield, Form.float?_ofFloat hcoefficient, Form.float?_ofFloat hoffset]

/-- **A rule** is read back. -/
theorem Rule.ofForm?_toForm {r : Rule} (h : r.Storable) : ofForm? r.toForm = some r := by
  have hcondition := FieldCondition.ofForm?_toForm r.condition h.condition
  have hresult := RuleResult.ofForm?_toForm h.result
  simp [toForm, ofForm?, Form.str?, hcondition, hresult]

/-- **A table** is read back, its rules in their order. -/
theorem Table.ofForm?_toForm {t : Table} (h : t.Storable) : ofForm? t.toForm = some t := by
  have hrules := Form.listOf?_map fun r hr => Rule.ofForm?_toForm (h r hr)
  simp [toForm, ofForm?, Form.str?, Shape.ofForm?_toForm, ValueType.ofForm?_toForm, hrules]

/-! ## Flows -/

/-- **A target** is read back. -/
theorem Target.ofForm?_toForm (t : Target) : ofForm? t.toForm = some t := by
  cases t <;> rfl

theorem Source.part?_path (name : String) (path : Option FieldPath) :
    Form.part? (("step", .str name) :: Form.unlessNone FieldPath.toForm "path" path) "path"
      = path.map FieldPath.toForm := by
  rw [Form.part?_cons, if_neg (by decide), Form.part?_unlessNone, if_pos rfl]

/-- **A source** is read back. -/
theorem Source.ofForm?_toForm {source : Source} (h : source.Storable) :
    ofForm? source.toForm = some source := by
  cases source with
  | input field => rfl
  | step name path =>
      -- Without a path the part is missing, and what is missing is read as the whole result.
      have hread : ∀ p, path = some p →
          p.toForm ≠ .null ∧ FieldPath.ofForm? p.toForm = some p :=
        fun p hp => ⟨nofun, FieldPath.ofForm?_toForm_iff.mpr (h p hp)⟩
      have hpath := Form.optional_of_part? (part?_path name path) hread
      simp [toForm, ofForm?, Form.str?, hpath]
  | constant v =>
      rw [toForm, ofForm?, Value.Storable.ofForm?_eq h]
      rfl

/-- **A binding** is read back. -/
theorem Binding.ofForm?_toForm {b : Binding} (h : b.source.Storable) :
    ofForm? b.toForm = some b := by
  simp [toForm, ofForm?, Form.str?, Source.ofForm?_toForm h]

namespace Step

/-- The parts of the form of a step. -/
def formParts (s : Step) : List (String × Form) :=
  [("name", .str s.name), ("target", s.target.toForm),
    ("inputs", .list (s.inputs.map Binding.toForm))]
    ++ Form.unlessNone FieldCondition.toForm "gate" s.gate
    ++ Form.unlessNone Form.str "gate_message" s.gateMessage
    ++ Form.unlessNone (fun n => .int n.toNat) "timeout_ms" s.budget

theorem part?_gate (s : Step) :
    Form.part? s.formParts "gate" = s.gate.map FieldCondition.toForm := by
  simp [formParts, Form.part?_append, Form.part?_cons, Form.part?_unlessNone]

theorem part?_gateMessage (s : Step) :
    Form.part? s.formParts "gate_message" = s.gateMessage.map Form.str := by
  simp [formParts, Form.part?_append, Form.part?_cons, Form.part?_unlessNone]

theorem part?_budget (s : Step) :
    Form.part? s.formParts "timeout_ms" = (s.budget.map UInt64.toNat).map fun n => .int n := by
  rw [Option.map_map]
  simp [formParts, Form.part?_append, Form.part?_cons, Form.part?_unlessNone, Function.comp_def]

/-- **A step** is read back, with what it does not say still not said.  The three parts that may be
    missing come first, the three that are always there follow, and then the parts are put
    together; none of it is computed, so that the form of a gate is never unfolded. -/
theorem ofForm?_toForm {s : Step} (h : s.Storable) : ofForm? s.toForm = some s := by
  have hinputs := Form.listOf?_map fun b hb => Binding.ofForm?_toForm (h.inputs b hb)
  have hgate : Form.optional FieldCondition.ofForm? s.formParts "gate" = some s.gate := by
    refine Form.optional_of_part? s.part?_gate fun g hg => ?_
    exact ⟨by cases g <;> nofun, FieldCondition.ofForm?_toForm g (h.gate g hg)⟩
  have hmessage : Form.optional Form.str? s.formParts "gate_message" = some s.gateMessage :=
    Form.optional_of_part? s.part?_gateMessage fun m _ => ⟨nofun, rfl⟩
  have hbudget : Form.optional Form.natural? s.formParts "timeout_ms"
      = some (s.budget.map UInt64.toNat) := by
    refine Form.optional_of_part? s.part?_budget fun n hn => ⟨nofun, ?_⟩
    obtain ⟨budget, _, rfl⟩ := Option.map_eq_some_iff.mp hn
    exact Form.natural?_int budget.toNat_lt_size
  have hparts : s.toForm = .object s.formParts := rfl
  have hname : Form.required Form.str? s.formParts "name" = some s.name :=
    Form.required_of_part? rfl rfl
  have htarget : Form.required Target.ofForm? s.formParts "target" = some s.target :=
    Form.required_of_part? rfl s.target.ofForm?_toForm
  have hbindings : Form.required (Form.listOf? Binding.ofForm?) s.formParts "inputs"
      = some s.inputs := Form.required_of_part? rfl hinputs
  -- The budget went through a natural number and comes back as 64 bits.
  have hrestored : (s.budget.map UInt64.toNat).map UInt64.ofNat = s.budget := by
    cases s.budget with
    | none => rfl
    | some budget => exact congrArg some UInt64.ofNat_toNat
  simp only [ofForm?, hparts, Form.parts?_object, Option.bind_eq_bind, Option.bind_some, hname,
    htarget, hbindings, hgate, hmessage, hbudget, hrestored]
  rfl

end Step

/-- **An output** is read back. -/
theorem Output.ofForm?_toForm {o : Output} (h : o.source.Storable) :
    ofForm? o.toForm = some o := by
  simp [toForm, ofForm?, Form.str?, ValueType.ofForm?_toForm, Source.ofForm?_toForm h]

/-- **A flow** is read back, its steps and outputs in their order. -/
theorem Flow.ofForm?_toForm {flow : Flow} (h : flow.Storable) :
    ofForm? flow.toForm = some flow := by
  have hsteps := Form.listOf?_map fun s hs => Step.ofForm?_toForm (h.steps s hs)
  have houtputs := Form.listOf?_map fun o ho => Output.ofForm?_toForm (h.outputs o ho)
  simp [toForm, ofForm?, Form.str?, Shape.ofForm?_toForm, hsteps, houtputs]

/-! ## Limits -/

/-- **Limits** are read back if each of them fits 64 bits, the range of the numbers they are. -/
theorem Limits.ofForm?_toForm {limits : Limits} (h : limits.Storable) :
    ofForm? limits.toForm = some limits := by
  -- The parts are named, so that reading them is not computed but rewritten.
  obtain ⟨parts, hparts, hrules, hsteps, hnesting, hdepth, hnodes⟩ :
      ∃ parts, limits.toForm = .object parts
        ∧ Form.required Form.natural? parts "max_rules" = some limits.maxRules
        ∧ Form.required Form.natural? parts "max_steps" = some limits.maxSteps
        ∧ Form.required Form.natural? parts "max_nesting_depth" = some limits.maxNestingDepth
        ∧ Form.required Form.natural? parts "max_condition_depth" = some limits.maxConditionDepth
        ∧ Form.required Form.natural? parts "max_condition_nodes"
            = some limits.maxConditionNodes :=
    ⟨_, rfl, Form.required_of_part? rfl (Form.natural?_int h.maxRules),
      Form.required_of_part? rfl (Form.natural?_int h.maxSteps),
      Form.required_of_part? rfl (Form.natural?_int h.maxNestingDepth),
      Form.required_of_part? rfl (Form.natural?_int h.maxConditionDepth),
      Form.required_of_part? rfl (Form.natural?_int h.maxConditionNodes)⟩
  simp [hparts, ofForm?, hrules, hsteps, hnesting, hdepth, hnodes]

/-! ## Everything that is serialized -/

/-- What can be stored is read back as it was, and what is not said leaves no part in a form. -/
structure FormsReadBack : Prop where
  value : ∀ v : Value, v.Storable → Value.ofForm? v.toForm = some v
  record : ∀ r : Record, (Value.record r).Storable → Record.ofForm? r.toForm = some r
  valueType : ∀ t : ValueType, ValueType.ofForm? t.toForm = some t
  shape : ∀ s : Shape, Shape.ofForm? s.toForm = some s
  literal : ∀ s : Scalar, s.Finite → Scalar.ofForm? s.toForm = some s
  path : ∀ p : FieldPath, p.Parsed → FieldPath.ofForm? p.toForm = some p
  comparator : ∀ c : Comparator, Comparator.ofForm? c.toForm = some c
  test : ∀ t : FieldTest, t.Storable → FieldTest.ofForm? t.toForm = some t
  condition : ∀ c : FieldCondition, FieldCondition.Storable c →
    FieldCondition.ofForm? (FieldCondition.toForm c) = some c
  result : ∀ result : RuleResult, result.Storable →
    RuleResult.ofForm? result.toForm = some result
  rule : ∀ r : Rule, r.Storable → Rule.ofForm? r.toForm = some r
  table : ∀ t : Table, t.Storable → Table.ofForm? t.toForm = some t
  target : ∀ t : Target, Target.ofForm? t.toForm = some t
  source : ∀ source : Source, source.Storable → Source.ofForm? source.toForm = some source
  binding : ∀ b : Binding, b.source.Storable → Binding.ofForm? b.toForm = some b
  step : ∀ s : Step, s.Storable → Step.ofForm? s.toForm = some s
  output : ∀ o : Output, o.source.Storable → Output.ofForm? o.toForm = some o
  flow : ∀ flow : Flow, flow.Storable → Flow.ofForm? flow.toForm = some flow
  limits : ∀ limits : Limits, limits.Storable → Limits.ofForm? limits.toForm = some limits
  /-- A step that has no gate, no message or no budget has no part of that name. -/
  unsaid : ∀ s : Step, ∃ parts, s.toForm = .object parts
    ∧ (Form.part? parts "gate" = none ↔ s.gate = none)
    ∧ (Form.part? parts "gate_message" = none ↔ s.gateMessage = none)
    ∧ (Form.part? parts "timeout_ms" = none ↔ s.budget = none)
  /-- A source that is the whole result of a step has no path. -/
  unsaidPath : ∀ name path, ∃ parts,
    (Source.step name path).toForm = .object [("step", .object parts)]
      ∧ (Form.part? parts "path" = none ↔ path = none)

/-- **Forms read back.**  Values, types, conditions, tables, flows and limits survive their forms:
    integers and floats stay apart, all orders are kept, and what is unset comes back unset.  The
    hypotheses are what a form cannot hold: a float that is not finite, and a path that has no
    text of its own. -/
theorem forms_read_back : FormsReadBack where
  value _ h := h.ofForm?_eq
  record _ h := Record.ofForm?_toForm h
  valueType := ValueType.ofForm?_toForm
  shape := Shape.ofForm?_toForm
  literal := Scalar.ofForm?_toForm
  path _ := FieldPath.ofForm?_toForm_iff.mpr
  comparator := Comparator.ofForm?_toForm
  test := FieldTest.ofForm?_toForm
  condition := FieldCondition.ofForm?_toForm
  result _ h := RuleResult.ofForm?_toForm h
  rule _ h := Rule.ofForm?_toForm h
  table _ h := Table.ofForm?_toForm h
  target := Target.ofForm?_toForm
  source _ h := Source.ofForm?_toForm h
  binding _ h := Binding.ofForm?_toForm h
  step _ h := Step.ofForm?_toForm h
  output _ h := Output.ofForm?_toForm h
  flow _ h := Flow.ofForm?_toForm h
  limits _ h := Limits.ofForm?_toForm h
  unsaid s := by
    -- Each of the three parts is looked up past the others, which have other names.
    refine ⟨s.formParts, rfl, ?_, ?_, ?_⟩
    · rw [s.part?_gate, Option.map_eq_none_iff]
    · rw [s.part?_gateMessage, Option.map_eq_none_iff]
    · rw [s.part?_budget, Option.map_eq_none_iff, Option.map_eq_none_iff]
  unsaidPath name path := by
    refine ⟨_, rfl, ?_⟩
    rw [Source.part?_path, Option.map_eq_none_iff]

/-- A flow that says all it can say in one step and as little as it can in the other; the constant
    holds an integer beside the float of the same number. -/
def tariffFlow : Flow where
  id := "tariff"
  input := .cons "kwh" .float (.cons "account" (.record (.cons "id" .str .nil)) .nil)
  steps :=
    [ { name := "rate"
        target := .table "rates"
        inputs := [⟨"kwh", .input "kwh"⟩,
          ⟨"base", .constant (.record (.cons "count" (.scalar (.int 1))
            (.cons "price" (.scalar (.float 1.0)) .nil)))⟩]
        gate := some (.any [.not (.leaf (.compare (.field "rate") .lessThan (.float (-0.0)))),
          .all []])
        gateMessage := some ""
        budget := some 18446744073709551615 },
      { name := "bill"
        target := .flow "billing"
        inputs := [⟨"id", .step "rate" (some ⟨⟨"account"⟩, [⟨"id"⟩]⟩)⟩,
          ⟨"rate", .step "rate" none⟩]
        gate := none
        gateMessage := none
        budget := none } ]
  outputs := [⟨"total", .float, .step "bill" none⟩]

theorem tariffFlow_storable : tariffFlow.Storable where
  steps s hs := by
    rcases List.mem_cons.mp hs with rfl | hs
    · refine ⟨fun b hb => ?_, fun g hg => ?_⟩
      · rcases List.mem_cons.mp hb with rfl | hb
        · trivial
        · obtain rfl := List.mem_singleton.mp hb
          have hprice : Decimal.isFinite 1.0 = true := by decide +kernel
          exact ⟨⟨trivial, by decide, trivial, nofun, trivial⟩, trivial, hprice, trivial⟩
      · cases hg
        intro t ht
        obtain rfl := List.mem_singleton.mp ht
        have hrate : (FieldPath.field "rate").Parsed := by decide
        have hzero : Decimal.isFinite (-0.0) = true := by decide +kernel
        exact ⟨hrate, hzero⟩
    · obtain rfl := List.mem_singleton.mp hs
      refine ⟨fun b hb => ?_, nofun⟩
      rcases List.mem_cons.mp hb with rfl | hb
      · intro p hp
        obtain rfl := Option.some.inj hp
        decide
      · obtain rfl := List.mem_singleton.mp hb
        exact nofun
  outputs o ho := by
    obtain rfl := List.mem_singleton.mp ho
    exact nofun

theorem forms_read_back_tariff :
    tariffFlow.Storable ∧ Flow.ofForm? tariffFlow.toForm = some tariffFlow
      ∧ Limits.default.Storable ∧ Limits.ofForm? Limits.default.toForm = some .default := by
  have hlimits : Limits.default.Storable :=
    ⟨by decide, by decide, by decide, by decide, by decide⟩
  exact ⟨tariffFlow_storable, forms_read_back.flow _ tariffFlow_storable, hlimits,
    forms_read_back.limits _ hlimits⟩

end Verdict
