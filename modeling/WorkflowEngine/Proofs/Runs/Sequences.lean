import WorkflowEngine.Proofs.Runs.Bindings
import WorkflowEngine.Proofs.Runs.Visits

/-!
# Sequences as successive bindings

A sequence keeps the values it has gathered in a list, which may begin with a name twice and is
searched from the front. It runs as if it kept what each name is bound to instead: its course is
given by the bindings before each step, and everything that it does can be read off this course.
-/

namespace WorkflowEngine

/-- A step that a sequence runs. -/
structure Stage where
  /-- The step. -/
  step : Step Executable
  /-- What names are bound to before it. -/
  bound : Bindings
  /-- What its child is given. -/
  taken : List Value

/-- The course of a sequence. -/
structure Course where
  /-- The steps that are run, in their order. -/
  stages : List Stage
  /-- What names are bound to in the end, or the error that has ended the sequence. -/
  ending : Except Error Bindings

/-- The course of steps from bindings on. Each child is given its declared inputs as they are bound
before it, and what it gives overrides the bindings. The first step that cannot be resolved or fails
is the last. -/
def course (policy : InputPolicy) : List (Step Executable) → Bindings → Course
  | [], bound => ⟨[], .ok bound⟩
  | step :: rest, bound =>
    match bound.resolve step.child.id step.mapping policy step.child.signature.input with
    | .error e => ⟨[], .error e⟩
    | .ok taken =>
      match (step.child.run taken).outcome with
      | .error e => ⟨[⟨step, bound, taken⟩], .error e⟩
      | .ok outputs =>
        let later := course policy rest (bound.override outputs)
        ⟨⟨step, bound, taken⟩ :: later.stages, later.ending⟩

/-- The visit of a child at a stage. -/
structure Visit.Follows (v : Visit) (t : Stage) : Prop where
  /-- The child is that of the step. -/
  child : v.child = t.step.child
  /-- Its inputs are mapped as the step says. -/
  mapping : v.mapping = t.step.mapping
  /-- The values that can be drawn on bind names as the stage has them. -/
  bound : v.available.bindings = t.bound
  /-- The child is given the inputs of the stage. -/
  input : v.input = t.taken

namespace Executable

/-- Steps take their course: they visit the children of its stages, and end as it ends. -/
theorem runSteps_course (policy : InputPolicy) (steps : List (Step Executable))
    (current : ValueSet) :
    (runSteps policy steps current).outcome.map ValueSet.bindings =
        (course policy steps current.bindings).ending ∧
      List.Forall₂ Visit.Follows (stepVisits policy steps current)
        (course policy steps current.bindings).stages := by
  induction steps generalizing current with
  | nil => exact ⟨rfl, .nil⟩
  | cons step rest ih =>
    rw [runSteps, stepVisits, course, resolveAndInvoke_eq, visit?, resolveInputs_eq_resolve]
    cases current.bindings.resolve step.child.id step.mapping policy step.child.signature.input with
    | error e => exact ⟨rfl, .nil⟩
    | ok taken =>
      have hfollows : (Visit.mk step.child step.mapping current taken).Follows
          ⟨step, current.bindings, taken⟩ := ⟨rfl, rfl, rfl, rfl⟩
      have hvisit := Visit.outcome_run ⟨step.child, step.mapping, current, taken⟩
      simp only [hvisit]
      cases houtcome : (step.child.run taken).outcome with
      | error e =>
        rw [(Run.andThen_of_error _ (hvisit.trans houtcome)).1]
        exact ⟨rfl, .cons hfollows .nil⟩
      | ok outputs =>
        obtain ⟨hending, hstages⟩ := ih (current.mergeAll outputs)
        rw [ValueSet.bindings_mergeAll] at hending hstages
        rw [(Run.andThen_of_ok _ (hvisit.trans houtcome)).1]
        exact ⟨hending, .cons hfollows hstages⟩

/-- A sequence on an input, whatever its steps do. The bindings begin with the first value of each
name in the input; those before a step are the ones before the last step, overridden by what it has
given.

1. The sequence ends with the error of the first step that cannot be resolved or fails. Otherwise,
   under the strict policy, it ends with the report of the first declared output that nothing is
   bound to in the end, and else with the declared outputs that something is bound to, in the order
   of their declarations and under them.
2. What happens in it are the visits of the children up to that step, one after the other; each
   child is given its declared inputs as the bindings before its step have their sources. -/
theorem runSequential_course (id : ModuleId) (signature : Signature) (policy : InputPolicy)
    (steps : List (Step Executable)) (input : List Value) :
    let course := course policy steps (.ofList input)
    ((runSequential id signature policy steps input).outcome = course.ending >>= fun bound =>
        bound.gather id policy signature.output) ∧
      ∃ visits : List Visit, List.Forall₂ Visit.Follows visits course.stages ∧
        (runSequential id signature policy steps input).events =
          visits.flatMap fun v => v.run.events := by
  intro course
  obtain ⟨hending, hstages⟩ := runSteps_course policy steps ⟨input⟩
  refine ⟨?_, _, hstages, events_runSequential id signature policy steps input⟩
  rw [show course.ending = _ from hending.symm, runSequential, Run.outcome_andThen]
  cases (runSteps policy steps ⟨input⟩).outcome with
  | error e => rfl
  | ok current => exact gatherOutputs_eq_gather id policy signature.output current

end Executable

end WorkflowEngine
