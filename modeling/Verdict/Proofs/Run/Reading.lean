/-
  Reading — what is declared at a path, and what is found there.

  1. **Specification** — `Agree`: nothing is declared and nothing is found, or a type is declared
     and a value found that it accepts.  So there is something to find EXACTLY where something is
     declared.

  2. **Step** — reading on along a path keeps the agreement (`Agree.at?`).  A path that goes into a
     scalar ends in nothing on both sides, the empty path stays where it is, and a path may well
     stop at a record.

  3. **Walkers** — types, values, records, shapes, contexts and the sources of a step are all read
     by going on along a path from something that agrees.  So every one of them agrees, whether it
     reads a path at once or in stages (`ValueType.ReadsLike`, `Shape.ReadsLike`, `ReadAlike`).

  4. **Theorem** — `readings_agree`: so admission and runs read alike.  No type has to be without
     defects for this: where a name is declared twice both sides go by the first declaration.
-/
import Verdict.Proofs.Assignability
import Verdict.Proofs.Run.Typing

namespace Verdict

/-! ## Agreement -/

/-- What is declared at a place and what is found there: nothing on both sides, or a type and a
    value that it accepts. -/
inductive Agree : (declared : Option ValueType) → (found : Option Value) → Prop
  | nothing : Agree none none
  | value {t : ValueType} {v : Value} (accepted : t.accepts v = true) : Agree (some t) (some v)

/-- Something is found exactly where something is declared, -/
theorem Agree.found_iff {declared : Option ValueType} {found : Option Value}
    (h : Agree declared found) : (∃ t, declared = some t) ↔ ∃ v, found = some v := by
  cases h with
  | nothing => exact ⟨nofun, nofun⟩
  | value => exact ⟨fun _ => ⟨_, rfl⟩, fun _ => ⟨_, rfl⟩⟩

/-- and it is accepted there. -/
theorem Agree.accepts {declared : Option ValueType} {found : Option Value}
    (h : Agree declared found) {t : ValueType} {v : Value} (ht : declared = some t)
    (hv : found = some v) : t.accepts v = true := by
  cases h with
  | nothing => cases ht
  | value accepted =>
      cases ht
      cases hv
      exact accepted

/-- A conforming record and its shape agree on every name. -/
theorem Conforms.agree {shape : Shape} {r : Record} (h : Conforms (.record shape) (.record r))
    (name : String) : Agree (shape.type? name) (r.get? name) := by
  cases ht : shape.type? name with
  | some t =>
      obtain ⟨v, hv, hconf⟩ := h.get? ht
      rw [hv]
      exact .value (ValueType.accepts_iff.mpr hconf)
  | none =>
      cases hv : r.get? name with
      | none => exact .nothing
      | some v =>
          -- Every name of the record is declared.
          cases h with
          | record _ _ declared =>
              obtain ⟨t, ht'⟩ :=
                Shape.mem_names_iff.mp (declared name (Record.mem_names_iff.mpr ⟨v, hv⟩))
              rw [ht] at ht'
              cases ht'

/-- **Reading on** along a path keeps the agreement.  The induction is on the path; what agrees is
    nothing on both sides, a scalar with its type, where every further name leads to nothing, or a
    record with its shape, which agree on every name. -/
theorem Agree.at? {declared : Option ValueType} {found : Option Value}
    (h : Agree declared found) (path : List String) :
    Agree (declared.bind (·.at? path)) (found.bind (·.at? path)) := by
  induction path generalizing declared found with
  | nil =>
      -- Both sides stay where they are.
      cases h with
      | nothing => exact .nothing
      | @value t v accepted =>
          show Agree (t.at? []) (v.at? [])
          cases t <;> cases v <;> exact .value accepted
  | cons name path ih =>
      cases h with
      | nothing => exact .nothing
      | value accepted =>
          have hconf := ValueType.accepts_iff.mp accepted
          cases hconf with
          | scalar => exact .nothing
          | record present fits declared =>
              exact ih ((Conforms.record present fits declared).agree name)

/-! ## Types and shapes -/

/-- A type and a value are read alike. -/
structure ValueType.ReadsLike (t : ValueType) (v : Value) : Prop where
  /-- A path leads somewhere in the value exactly if it does in the type, -/
  found_iff : ∀ path, (∃ ty, t.at? path = some ty) ↔ ∃ w, v.at? path = some w
  /-- and what is found there is accepted by the type that is declared there. -/
  accepted : ∀ path ty w, t.at? path = some ty → v.at? path = some w → ty.accepts w = true
  /-- Both are read in two stages to the same end. -/
  stages : ∀ front rest, (t.at? front).bind (·.at? rest) = t.at? (front ++ rest)
    ∧ (v.at? front).bind (·.at? rest) = v.at? (front ++ rest)

/-- A shape and a record are read alike. -/
structure Shape.ReadsLike (s : Shape) (r : Record) : Prop where
  field : ∀ name, Agree (s.type? name) (r.get? name)
  /-- A path that has a name leads a record and its type to what agrees, -/
  path : ∀ name rest, Agree ((ValueType.record s).at? (name :: rest)) (r.at? (name :: rest))
  /-- and the path without names leads a record nowhere. -/
  noPath : r.at? [] = none
  /-- What a condition declares and what it looks up. -/
  lookup : ∀ p, Agree (s.lookup p) (r.lookup p)

theorem ValueType.readsLike_of_accepts {t : ValueType} {v : Value} (h : t.accepts v = true) :
    t.ReadsLike v where
  found_iff path := ((Agree.value h).at? path).found_iff
  accepted path _ _ := ((Agree.value h).at? path).accepts
  stages front rest := ⟨(t.at?_append front rest).symm, (v.at?_append front rest).symm⟩

theorem Shape.readsLike_of_check {s : Shape} {r : Record} (h : s.check r = .ok ()) :
    s.ReadsLike r where
  field := (check_eq_ok_iff.mp h).agree
  path name rest := ((check_eq_ok_iff.mp h).agree name).at? rest
  noPath := rfl
  lookup p := ((check_eq_ok_iff.mp h).agree p.head.text).at? p.restNames

namespace Run

variable {σ : Type}

/-! ## Contexts and sources -/

/-- Entry by entry, a context that holds a result of each step, of the type that the step has. -/
def Context.Holds (produced : Produced) (context : Context) : Prop :=
  List.Forall₂ (fun step entry => entry.1 = step.1 ∧ step.2.accepts entry.2 = true)
    produced context.entries

theorem Context.Typed.holds {produced : Produced} {context : Context}
    (h : context.Typed produced) : context.Holds produced :=
  List.Forall₂.imp (fun _ _ hfits => ⟨hfits.1, ValueType.accepts_iff.mpr hfits.2.1⟩) h

/-- Steps and results agree on every name. -/
theorem Context.Holds.agree {produced : Produced} {context : Context}
    (h : context.Holds produced) (name : String) :
    Agree (produced.type? name) (context.get? name) := by
  have hrel := find?_rel (fun _ _ hfits => hfits.1) h name
  unfold Produced.type? Context.get?
  generalize produced.find? (·.1 == name) = declared at hrel ⊢
  generalize context.entries.find? (·.1 == name) = found at hrel ⊢
  cases hrel with
  | none => exact .nothing
  | some hfits => exact .value hfits.2

section

variable {flow : Flow} {produced : Produced} {input : Record} {context : Context}

theorem toOption_stepType (reader : SourceReader) (name : String) :
    (flow.stepType produced reader name).toOption = produced.type? name := by
  unfold Flow.stepType
  cases produced.type? name with
  | some t => rfl
  | none =>
      dsimp only
      split <;> rfl

/-- A path into the result of a step leads admission to the type that is declared there. -/
theorem toOption_sourceType_path (reader : SourceReader) (name : String) (path : FieldPath) :
    (flow.sourceType produced reader (.step name (some path))).toOption
      = (produced.type? name).bind (·.at? path.names) := by
  have hstep : (flow.stepType produced reader name).toOption = produced.type? name :=
    toOption_stepType reader name
  rw [Flow.sourceType, ← hstep]
  cases flow.stepType produced reader name with
  | error e => rfl
  | ok t =>
      change _ = t.at? path.names
      dsimp only [bind, Except.bind]
      cases t.at? path.names <;> rfl

theorem toOption_sourceType_result (reader : SourceReader) (name : String) :
    (flow.sourceType produced reader (.step name none)).toOption = produced.type? name := by
  have hstep : (flow.stepType produced reader name).toOption = produced.type? name :=
    toOption_stepType reader name
  rw [Flow.sourceType, ← hstep]
  cases flow.stepType produced reader name <;> rfl

theorem toOption_sourceType_input (reader : SourceReader) (field : String) :
    (flow.sourceType produced reader (.input field)).toOption = flow.input.type? field := by
  rw [Flow.sourceType]
  cases flow.input.type? field <;> rfl

/-- What a flow declares and what a run of it holds are read alike: by the sources of bindings and
    outputs, and by gates. -/
structure ReadAlike (flow : Flow) (produced : Produced) (input : Record) (context : Context) :
    Prop where
  /-- Whoever reads a source finds what admission has found the type of.  A constant is taken as it
      is; the records in it have each name once, like all others. -/
  source : ∀ reader source, (∀ v, source = .constant v → v.Ordered) →
    Agree (flow.sourceType produced reader source).toOption (resolve? input context source)
  /-- A path into the result of a step is read in two stages by both of them, its first name and
      then the rest. -/
  stages : ∀ reader name (path : FieldPath),
    (flow.sourceType produced reader (.step name (some path))).toOption
        = ((produced.type? name).bind (·.at? [path.head.text])).bind (·.at? path.restNames)
      ∧ resolve? input context (.step name (some path))
        = ((context.get? name).bind (·.at? [path.head.text])).bind (·.at? path.restNames)
  /-- What a gate declares and what it looks up. -/
  gate : ∀ p, Agree (produced.lookup p) (context.lookup p)

/-- **Sources and gates** of a flow are read alike where the input conforms and the steps have left
    results of their types. -/
theorem Context.Holds.readAlike (h : context.Holds produced)
    (hin : flow.input.check input = .ok ()) : ReadAlike flow produced input context where
  source reader source hordered := by
    cases source with
    | input field =>
        rw [toOption_sourceType_input]
        exact (Shape.check_eq_ok_iff.mp hin).agree field
    | step name path =>
        cases path with
        | none =>
            rw [toOption_sourceType_result]
            exact h.agree name
        | some path =>
            rw [toOption_sourceType_path]
            exact (h.agree name).at? path.names
    | constant v =>
        -- A constant is accepted by the type that is made from it.
        have hunambiguous := v.unambiguous_of (hordered v rfl)
        have hself := ValueType.acceptsType_refl hunambiguous
        exact .value (ValueType.accepts_iff.mpr (.of_acceptsType_of hunambiguous hself))
  stages reader name path := by
    rw [toOption_sourceType_path, resolve?, Option.bind_assoc, Option.bind_assoc]
    constructor
    · exact Option.bind_congr fun t _ => t.at?_append [path.head.text] path.restNames
    · exact Option.bind_congr fun v _ => v.at?_append [path.head.text] path.restNames
  gate p := (h.agree p.head.text).at? p.restNames

end

/-! ## Admission and runs -/

/-- **One way of reading.**  What a type declares at a path, a value that it accepts has there, and
    it has nothing else; and so it is for records and shapes, and for the sources and the gates of a
    flow over any context that holds results of the declared types.  At every moment of a run of a
    registered flow the context is one of these, for the steps in front.

    The four parts are about types and values, shapes and records, declared sources and contexts,
    and runs; all of them are `Agree.at?` along a path, begun at another place. -/
theorem readings_agree :
    (∀ (t : ValueType) (v : Value), t.accepts v = true → t.ReadsLike v)
      ∧ (∀ (s : Shape) (r : Record), s.check r = .ok () → s.ReadsLike r)
      ∧ (∀ (flow : Flow) (produced : Produced) (input : Record) (context : Context),
          flow.input.check input = .ok () → context.Holds produced →
          ReadAlike flow produced input context)
      ∧ ∀ (limits : Limits) (ds : List Definition) (id : String) (f : AdmittedFlow),
          (Registry.ofDefinitions limits ds).flows.get? id = some f →
          ∀ (σ : Type) (env : Surroundings σ) (invoke : Invoker σ) (control : Control)
            (input : Record) (start : σ) (index : Nat) (context : Context) (s : σ),
            Moment env invoke control f input start index context s →
              ReadAlike f.flow ((f.flow.produced f.facts).take index) input context := by
  refine ⟨fun t v => ValueType.readsLike_of_accepts, fun s r => Shape.readsLike_of_check,
    fun flow produced input context hin hholds => hholds.readAlike hin, ?_⟩
  intro limits ds id f hf σ env invoke control input start index context s hmoment
  have hr := Registry.sound_ofDefinitions limits ds
  obtain ⟨hin, htyped⟩ := hmoment.typed hr hf
  exact htyped.holds.readAlike (Shape.check_eq_ok_iff.mpr hin)

/-- What the inner flow declares for its answer. -/
def yearsType : ValueType := .record (.cons "years" .float .nil)

/-- The context of a visit when the gate is passed: whole years, as they are stored. -/
def pastGate : Context := Context.empty.push "gate" (yearsType.coerce (.record ofAge))

/-- A visit stands past its gate, and nobody has counted years in fractions. -/
theorem moment_pastGate :
    Moment Surroundings.still wholeYears (.new ⟨0⟩) Registry.admittedVisit ofAge () 1 pastGate () :=
  .next (.start rfl) rfl rfl rfl

/-- A place is read like its type, whole years like years that are declared as fractions, and a
    visit past its gate like what the gate produces. -/
theorem readings_agree_visit :
    ValueType.placeType.accepts (.record ValueType.place) = true
      ∧ ValueType.placeType.ReadsLike (.record ValueType.place)
      ∧ Registry.visitFlow.input.check ofAge = .ok () ∧ Registry.visitFlow.input.ReadsLike ofAge
      ∧ (⟨[("gate", .record ofAge)]⟩ : Context).Holds [("gate", yearsType)]
      ∧ ReadAlike Registry.visitFlow [("gate", yearsType)] ofAge ⟨[("gate", .record ofAge)]⟩
      ∧ (Registry.ofDefinitions .default Registry.visitDefinitions).flows.get? "visit"
          = some Registry.admittedVisit
      ∧ Moment Surroundings.still wholeYears (.new ⟨0⟩) Registry.admittedVisit ofAge () 1 pastGate
          ()
      ∧ ReadAlike Registry.visitFlow [("gate", yearsType)] ofAge pastGate := by
  obtain ⟨hvalue, hrecord, hflow, hmoment⟩ := readings_agree
  have hholds : (⟨[("gate", .record ofAge)]⟩ : Context).Holds [("gate", yearsType)] :=
    .cons ⟨rfl, rfl⟩ .nil
  exact ⟨rfl, hvalue ValueType.placeType (.record ValueType.place) rfl, rfl,
    hrecord Registry.visitFlow.input ofAge rfl, hholds, hflow _ _ _ _ rfl hholds,
    Registry.visit_registered, moment_pastGate,
    hmoment .default Registry.visitDefinitions "visit" Registry.admittedVisit
      Registry.visit_registered Unit .still wholeYears (.new ⟨0⟩) ofAge () 1 pastGate ()
      moment_pastGate⟩

end Run

end Verdict
