import WorkflowEngine.Proofs.Runs.Relations

/-!
# Strict runs and lenient runs

The strict policy only adds failures: an input that cannot be resolved, an output that is missing. A
strict run that ends with a result or with any other error has therefore gone as the lenient run
goes, as far as that result or error depends on it.
-/

namespace WorkflowEngine

/-- The errors with which runs fail under the strict policy only. -/
inductive Error.StrictOnly : Error → Prop where
  /-- An input cannot be resolved. -/
  | unresolvedInput (input source : String) : StrictOnly (.unresolvedInput input source)
  /-- A declared output has not been produced. -/
  | missingOutput (name : String) : StrictOnly (.missingOutput name)

namespace Run

variable {α β : Type}

/-- A strict run refines a lenient one: its result is the result of both, by the same events, and an
error that is not about strictness is the error of both. -/
structure Refines (x y : Run α) : Prop where
  /-- A result of the strict run is that of the lenient one, and the same happens. -/
  ok : ∀ a, x.outcome = .ok a → y.outcome = .ok a ∧ x.events.Perm y.events
  /-- An error of the strict run is about strictness or that of the lenient one. -/
  error : ∀ e, x.outcome = .error e → e.StrictOnly ∨ y.outcome = .error e

/-- Runs that differ in time only refine each other. -/
theorem Agrees.refines {x y : Run α} (h : x.Agrees y) : x.Refines y where
  ok := fun _ ha => ⟨h.outcome.symm.trans ha, h.events⟩
  error := fun _ he => .inr (h.outcome.symm.trans he)

namespace Refines

/-- A run that fails because of strictness refines every run. -/
theorem of_strictOnly {x y : Run α} {e : Error} (h : x.outcome = .error e) (he : e.StrictOnly) :
    x.Refines y where
  ok := fun _ ha => nomatch h.symm.trans ha
  error := fun e' he' => by
    cases h.symm.trans he'
    exact .inl he

theorem of_error_eq {x y : Run α} {e : Error} (hx : x.outcome = .error e)
    (hy : y.outcome = .error e) : x.Refines y where
  ok := fun _ ha => nomatch hx.symm.trans ha
  error := fun _ he => .inr (hy.trans (hx.symm.trans he))

theorem closing {x y : Run α} (h : x.Refines y) (event : Except Error α → Event) :
    (x.closing event).Refines (y.closing event) := by
  refine ⟨?_, h.error⟩
  intro a ha
  have hx : x.outcome = .ok a := ha
  obtain ⟨hy, hevents⟩ := h.ok a hx
  refine ⟨hy, ?_⟩
  rw [events_closing, events_closing, hx, hy]
  exact hevents.append_right _

/-- Runs one after the other. -/
theorem andThen {x y : Run α} {f g : α → Run β} (h : x.Refines y) (hfg : ∀ a, (f a).Refines (g a)) :
    (x.andThen f).Refines (y.andThen g) := by
  cases hx : x.outcome with
  | error e =>
    have hf := andThen_of_error f hx
    rcases h.error e hx with he | hy
    · exact of_strictOnly hf.1 he
    · exact of_error_eq hf.1 (andThen_of_error g hy).1
  | ok a =>
    obtain ⟨hy, hevents⟩ := h.ok a hx
    have hf := andThen_of_ok f hx
    have hg := andThen_of_ok g hy
    constructor
    · intro b hb
      obtain ⟨hb', hevents'⟩ := (hfg a).ok b (hf.1.symm.trans hb)
      refine ⟨hg.1.trans hb', ?_⟩
      rw [hf.2, hg.2]
      exact hevents.append hevents'
    · intro e he
      have hnext := (hfg a).error e (hf.1.symm.trans he)
      exact hnext.imp_right hg.1.trans

/-- Time does not matter. -/
theorem congr {x x' y y' : Run α} (hx : x.Agrees x') (hy : y.Agrees y') (h : x'.Refines y') :
    x.Refines y where
  ok := fun a ha => by
    obtain ⟨hlenient, hevents⟩ := h.ok a (hx.outcome.symm.trans ha)
    exact ⟨hy.outcome.trans hlenient, hx.events.trans (hevents.trans hy.events.symm)⟩
  error := fun e he => (h.error e (hx.outcome.symm.trans he)).imp_right hy.outcome.trans

/-- Runs beside each other: the first that fails under the strict policy fails alike under the
lenient one, since what comes before it succeeds alike. -/
theorem beside {x x' y y' : Run (List α)} (h : x.Refines y) (h' : x'.Refines y') :
    (x.beside x').Refines (y.beside y') := by
  have houtcome (z z' : Run (List α)) :
      (z.beside z').outcome = z.outcome >>= fun a => z'.outcome.map (a ++ ·) := rfl
  constructor
  · intro a ha
    rw [houtcome] at ha ⊢
    obtain ⟨first, hfirst, ha⟩ := bind_eq_ok_iff.1 ha
    obtain ⟨second, hsecond, rfl⟩ := map_eq_ok_iff.1 ha
    obtain ⟨hy, hevents⟩ := h.ok first hfirst
    obtain ⟨hy', hevents'⟩ := h'.ok second hsecond
    rw [hy, hy', events_beside, events_beside]
    exact ⟨rfl, hevents.append hevents'⟩
  · intro e he
    rw [houtcome] at he ⊢
    rcases bind_eq_error_iff.1 he with he | ⟨first, hfirst, he⟩
    · refine (h.error e he).imp_right fun hy => ?_
      rw [hy]
      rfl
    · obtain ⟨hy, -⟩ := h.ok first hfirst
      refine (h'.error e (map_eq_error_iff.1 he)).imp_right fun hy' => ?_
      rw [hy, hy']
      rfl

end Refines

end Run

namespace Executable

/-- A child of a strict composite refines the child of a lenient one: they have the same interface,
and on every input one run refines the other. -/
structure Refines (x y : Executable) : Prop where
  /-- They have one name. -/
  id : x.id = y.id
  /-- They are of one class. -/
  type : x.type = y.type
  /-- They have one signature. -/
  signature : x.signature = y.signature
  /-- Their runs refine each other. -/
  run : ∀ input, (x.run input).Refines (y.run input)

variable {x y : Executable}

/-- Inputs that the strict policy resolves are resolved alike by the lenient one; otherwise the
strict policy is what fails. -/
theorem resolveInputs_strict (child : ModuleId) (mapping : Dictionary String)
    (available : ValueSet) (specs : List ValueSpec) :
    (∃ input, resolveInputs child mapping .strict available specs = .ok input ∧
      resolveInputs child mapping .lenient available specs = .ok input) ∨
    ∃ e, resolveInputs child mapping .strict available specs = .error e ∧ e.StrictOnly := by
  induction specs with
  | nil => exact .inl ⟨[], rfl, rfl⟩
  | cons spec rest ih =>
    cases hv : available.get? (sourceName mapping spec) with
    | some v =>
      simp only [resolveInputs, hv]
      rcases ih with ⟨input, hstrict, hlenient⟩ | ⟨e, he, honly⟩
      · rw [hstrict, hlenient]
        exact .inl ⟨_, rfl, rfl⟩
      · rw [he]
        exact .inr ⟨e, rfl, honly⟩
    | none =>
      simp only [resolveInputs, hv]
      cases spec.optional with
      | true => exact ih
      | false => exact .inr ⟨_, rfl, .unresolvedInput _ _⟩

/-- A child is invoked alike. -/
theorem Refines.invoke (h : x.Refines y) (mapping : Dictionary String) (available : ValueSet)
    (input : List Value) :
    (x.invoke mapping available input).Refines (y.invoke mapping available input) := by
  unfold Executable.invoke
  rw [h.id, h.type, h.signature]
  exact (h.run input).closing _

/-- Strict composites whose children refine those of lenient ones refine these. -/
theorem respected_refines :
    Respected .strict .lenient (fun _ => Run.Refines) Refines where
  refl := fun x => (Run.Agrees.refl x).refines
  congr := fun hx hy h => h.congr hx hy
  andThen := fun h hfg => h.andThen hfg
  beside := fun h h' => h.beside h'
  resolve := fun {_ y} h mapping available => by
    rw [h.id, h.signature]
    rcases resolveInputs_strict y.id mapping available y.signature.input with
      ⟨input, hstrict, hlenient⟩ | ⟨e, he, honly⟩
    · rw [hstrict, hlenient]
      exact (Run.Agrees.refl _).refines
    · rw [he]
      exact .of_strictOnly rfl honly
  run := fun h => h.run
  invoke := fun h => h.invoke
  gather := fun id declared current => by
    unfold gatherOutputs
    cases current.missing declared with
    | nil => exact (Run.Agrees.refl _).refines
    | cons name _ => exact .of_strictOnly rfl (.missingOutput _)

end Executable

namespace Module

variable {c d : Context}

/-- Under the strict policy a module refines what it is under the lenient one. -/
theorem executable_refines (hanswers : c.SameAnswers d) (hc : c.policy = .strict)
    (hd : d.policy = .lenient) (m : Module) : (m.executable c).Refines (m.executable d) := by
  induction m using induct with
  | step id signature kind hchildren htarget =>
    have hshape := kind.rel_map_right (executable d) (executable d) htarget hchildren
    have hkind := Kind.rel_map_left_iff.2 hshape
    rw [executable, executable, fold_mk, fold_mk]
    refine ⟨by simp, by simp, by simp, ?_⟩
    rw [← Executable.ofKindBy_byTime, ← Executable.ofKindBy_byTime]
    exact Executable.respected_refines.ofKindBy hanswers hc hd .byTime .byTime id rfl rfl hkind

/-- What a strict run tells about the lenient run of the same module on the same input, with
capabilities that answer alike:

1. if the strict run has a result, the lenient run has it, too, and the same happens in both: the
   same texts are generated for the same prompts, the same tools called with the same arguments, the
   same requests sent, and the same children invoked;
2. if the strict run fails for another reason than an input that is not resolved or an output that
   is missing, the lenient run fails with the same error. -/
theorem run_lenient_of_run_strict (c d : Context) (hanswers : c.SameAnswers d)
    (hc : c.policy = .strict) (hd : d.policy = .lenient) (m : Module) (input : List Value) :
    (∀ outputs, (m.run c input).outcome = .ok outputs →
      (m.run d input).outcome = .ok outputs ∧ (m.run c input).events.Perm (m.run d input).events) ∧
    ∀ e, (m.run c input).outcome = .error e →
      (∀ name source, e ≠ .unresolvedInput name source) → (∀ name, e ≠ .missingOutput name) →
        (m.run d input).outcome = .error e := by
  have hrefines : (m.run c input).Refines (m.run d input) :=
    (m.executable_refines hanswers hc hd).run input
  refine ⟨hrefines.ok, ?_⟩
  intro e he hinput houtput
  rcases hrefines.error e he with honly | hlenient
  · cases honly with
    | unresolvedInput name source => exact absurd rfl (hinput name source)
    | missingOutput name => exact absurd rfl (houtput name)
  · exact hlenient

/-- Hands a value on to a tool, with a remark if there is one. -/
def handOn (id : ModuleId) (tool output : String) : Module :=
  .mk id (.ofSides [.required "value" .any, ⟨"remark", .string, true⟩] [.required output .any])
    (.tool tool)

/-- Two tools one after the other; the second takes what the first gives. Nothing is bound to the
remark, neither under its own name nor under the one that it is mapped to. -/
def relay (tool : String) : Module :=
  .mk "relay" (.ofSides [.required "question" .string] [.required "answer" .any]) (.sequential [
    ⟨handOn "first" "echo" "reply", .ofList [("value", "question")]⟩,
    ⟨handOn "second" tool "answer", .ofList [("remark", "note"), ("value", "reply")]⟩])

/-- Surroundings with the built-in tools under a policy. -/
def equipped (policy : InputPolicy) : Context :=
  { Context.new "run" with tools := .builtin, policy := policy }

/-- A run of a relay under a policy. -/
def runRelay (policy : InputPolicy) (tool : String) : Run (List Value) :=
  (relay tool).run (equipped policy) [⟨.required "question" .string, .string "why"⟩]

/-- A relay of known tools answers under both policies alike; one that comes to an unknown tool
fails under both. -/
theorem run_relay_lenient :
    ((runRelay .strict "echo").outcome = .ok [⟨.required "answer" .any, .string "why"⟩] ∧
        (runRelay .lenient "echo").outcome = .ok [⟨.required "answer" .any, .string "why"⟩] ∧
        (runRelay .strict "echo").events.Perm (runRelay .lenient "echo").events) ∧
      (runRelay .strict "lost").outcome = .error (.toolNotFound "lost") ∧
      (runRelay .lenient "lost").outcome = .error (.toolNotFound "lost") := by
  have hsame : (equipped .strict).SameAnswers (equipped .lenient) :=
    (equipped .strict).sameAnswers_policy .strict .lenient
  have halike (tool : String) :=
    run_lenient_of_run_strict (equipped .strict) (equipped .lenient) hsame rfl rfl (relay tool)
  have hanswer : (runRelay .strict "echo").outcome =
      .ok [⟨.required "answer" .any, .string "why"⟩] := rfl
  have hlost : (runRelay .strict "lost").outcome = .error (.toolNotFound "lost") := rfl
  refine ⟨⟨hanswer, (halike "echo" _).1 _ hanswer⟩, hlost, ?_⟩
  exact (halike "lost" _).2 _ hlost (by rintro _ _ ⟨⟩) (by rintro _ ⟨⟩)

end Module

end WorkflowEngine
