import WorkflowEngine.Proofs.Runs.Invocations

/-!
# The children that a composite runs

A composite resolves the inputs of a child and runs the child on them. Which of its children it runs
depends on its kind: a sequence runs its steps up to the first that cannot be resolved or fails, a
fan-out runs all of its branches or none, a switch runs one branch at most. What happens in the
composite is what happens in these runs, and nothing else.
-/

namespace WorkflowEngine

/-- A child that a composite runs, with what its inputs are mapped to, what they have been resolved
from, and what has been resolved. -/
structure Visit where
  /-- The child. -/
  child : Executable
  /-- Sources of the inputs that do not go by their own names. -/
  mapping : Dictionary String
  /-- What the composite could draw on. -/
  available : ValueSet
  /-- What the child is given. -/
  input : List Value

namespace Visit

/-- The run of the child. -/
def run (v : Visit) : Run (List Value) := v.child.invoke v.mapping v.available v.input

@[simp] theorem outcome_run (v : Visit) : v.run.outcome = (v.child.run v.input).outcome := rfl

/-- What happens in the run of a child ends with its invocation. -/
theorem events_run (v : Visit) :
    v.run.events = (v.child.run v.input).events ++
      [.invoked (v.child.invocation v.mapping v.available v.input)] :=
  Executable.events_invoke _ _ _ _

end Visit

namespace Executable

variable {policy : InputPolicy} {mapping : Dictionary String} {available : ValueSet}

/-- The visit of a child, if its inputs can be resolved. -/
def visit? (policy : InputPolicy) (mapping : Dictionary String) (available : ValueSet)
    (child : Executable) : Option Visit :=
  match resolveInputs child.id mapping policy available child.signature.input with
  | .ok taken => some ⟨child, mapping, available, taken⟩
  | .error _ => none

/-- A visit is of the child whose inputs have been resolved. -/
theorem child_of_visit?_eq_some {child : Executable} {v : Visit}
    (h : child.visit? policy mapping available = some v) : v.child = child := by
  unfold visit? at h
  split at h
  · cases h
    rfl
  · cases h

/-- A composite does nothing for a child but visit it. -/
theorem resolveAndInvoke_eq (policy : InputPolicy) (mapping : Dictionary String)
    (available : ValueSet) (child : Executable) :
    child.resolveAndInvoke policy mapping available =
      match resolveInputs child.id mapping policy available child.signature.input with
      | .ok taken => (Visit.mk child mapping available taken).run
      | .error e => .fail e := by
  unfold resolveAndInvoke
  cases resolveInputs child.id mapping policy available child.signature.input with
  | ok taken => exact Run.ofExcept_ok_andThen _ _
  | error e => rfl

/-- What happens in the use of a child happens in its visit, if there is one. -/
theorem events_resolveAndInvoke (policy : InputPolicy) (mapping : Dictionary String)
    (available : ValueSet) (child : Executable) :
    (child.resolveAndInvoke policy mapping available).events =
      (child.visit? policy mapping available).toList.flatMap fun v => v.run.events := by
  rw [resolveAndInvoke_eq, visit?]
  cases resolveInputs child.id mapping policy available child.signature.input with
  | ok taken => exact (List.flatMap_singleton ..).symm
  | error e => rfl

/-! ## Visits of each kind -/

/-- The visits of steps: one after the other up to the first step that cannot be resolved or
fails. -/
def stepVisits (policy : InputPolicy) : List (Step Executable) → ValueSet → List Visit
  | [], _ => []
  | step :: rest, current =>
    match step.child.visit? policy step.mapping current with
    | none => []
    | some v => v :: match v.run.outcome with
      | .ok outputs => stepVisits policy rest (current.mergeAll outputs)
      | .error _ => []

/-- The visits of branches: of all or of none. -/
def branchVisits (policy : InputPolicy) (available : ValueSet) (branches : List Executable) :
    List Visit :=
  match resolveBranches policy available branches with
  | .ok ready => ready.map fun r => ⟨r.1, .empty, available, r.2⟩
  | .error _ => []

/-- The visits of a composite that runs on an input. -/
def visits (policy : InputPolicy) (input : List Value) : Kind Executable Executable → List Visit
  | .sequential steps => stepVisits policy steps ⟨input⟩
  | .parallel branches => branchVisits policy ⟨input⟩ branches
  | .switch condition cases fallback =>
    ((select cases fallback (conditionIn condition input)).bind
      (visit? policy .empty ⟨input⟩)).toList
  | .subWorkflow _ | .llm _ | .tool _ | .http | .jsonExtract _ => []

theorem exists_of_mem_stepVisits {steps : List (Step Executable)} {current : ValueSet} {v : Visit}
    (h : v ∈ stepVisits policy steps current) : ∃ s ∈ steps, v.child = s.child := by
  induction steps generalizing current with
  | nil => exact absurd h List.not_mem_nil
  | cons s rest ih =>
    rw [stepVisits] at h
    split at h
    · exact absurd h List.not_mem_nil
    · next w hw =>
      rcases List.mem_cons.1 h with rfl | h
      · exact ⟨s, List.mem_cons_self, child_of_visit?_eq_some hw⟩
      · split at h
        · obtain ⟨s', hs', hchild⟩ := ih h
          exact ⟨s', List.mem_cons_of_mem s hs', hchild⟩
        · exact absurd h List.not_mem_nil

theorem child_mem_of_mem_branchVisits {branches : List Executable} {v : Visit}
    (h : v ∈ branchVisits policy available branches) : v.child ∈ branches := by
  unfold branchVisits at h
  split at h
  · next ready hready =>
    obtain ⟨r, hr, rfl⟩ := List.mem_map.1 h
    obtain ⟨b, hb, hchild, _⟩ :=
      exists_mem_of_forall₂ (forall₂_of_resolveBranches_eq_ok hready) hr
    exact hchild ▸ hb
  · exact absurd h List.not_mem_nil

/-- A composite visits its own children only. -/
theorem child_mem_of_mem_visits {input : List Value} {kind : Kind Executable Executable} {v : Visit}
    (h : v ∈ visits policy input kind) : v.child ∈ kind.children := by
  cases kind with
  | sequential steps =>
    obtain ⟨s, hs, hchild⟩ := exists_of_mem_stepVisits h
    exact hchild ▸ List.mem_map_of_mem hs
  | parallel branches => exact child_mem_of_mem_branchVisits h
  | switch condition cases fallback =>
    obtain ⟨b, hselect, hv⟩ := Option.bind_eq_some_iff.1 (Option.mem_toList.1 h)
    exact child_of_visit?_eq_some hv ▸ mem_of_select_eq_some hselect
  | subWorkflow _ | llm _ | tool _ | http | jsonExtract _ => exact absurd h List.not_mem_nil

/-! ## What happens in a composite -/

/-- What happens in steps happens in their visits, one after the other. -/
theorem events_runSteps (policy : InputPolicy) (steps : List (Step Executable))
    (current : ValueSet) :
    (runSteps policy steps current).events =
      (stepVisits policy steps current).flatMap fun v => v.run.events := by
  induction steps generalizing current with
  | nil => rfl
  | cons s rest ih =>
    rw [runSteps, stepVisits, resolveAndInvoke_eq, visit?]
    cases resolveInputs s.child.id s.mapping policy current s.child.signature.input with
    | error e => rfl
    | ok taken =>
      simp only [List.flatMap_cons]
      cases houtcome : (Visit.mk s.child s.mapping current taken).run.outcome with
      | ok outputs => rw [(Run.andThen_of_ok _ houtcome).2, ih]
      | error e => rw [(Run.andThen_of_error _ houtcome).2, List.flatMap_nil, List.append_nil]

/-- What happens in a sequence happens in the visits of its steps. -/
theorem events_runSequential (id : ModuleId) (signature : Signature) (policy : InputPolicy)
    (steps : List (Step Executable)) (input : List Value) :
    (runSequential id signature policy steps input).events =
      (stepVisits policy steps ⟨input⟩).flatMap fun v => v.run.events := by
  rw [runSequential, Run.andThen_ofExcept]
  exact events_runSteps policy steps ⟨input⟩

/-- What happens in a fan-out happens in the visits of its branches, all at the same time. -/
theorem events_runParallelBy (schedule : Schedule) (id : ModuleId) (signature : Signature)
    (policy : InputPolicy) (branches : List Executable) (input : List Value) :
    (runParallelBy schedule id signature policy branches input).events.Perm
      ((branchVisits policy ⟨input⟩ branches).flatMap fun v => v.run.events) := by
  unfold branchVisits
  cases hready : resolveBranches policy ⟨input⟩ branches with
  | ok ready =>
    have hevents := (runParallelBy_of_ready schedule id signature hready).2
    rw [branchRuns, List.flatMap_map] at hevents
    rw [List.flatMap_map]
    exact hevents
  | error e =>
    rw [(runParallelBy_of_error schedule id signature hready).2]
    exact .nil

/-- What happens in a switch happens in the visit of the branch that it selects. -/
theorem events_runSwitch (signature : Signature) (policy : InputPolicy) (condition : String)
    (cases : List (Case Executable)) (fallback : Option Executable) (input : List Value) :
    (runSwitch signature policy condition cases fallback input).events =
      ((select cases fallback (conditionIn condition input)).bind
        (visit? policy .empty ⟨input⟩)).toList.flatMap fun v => v.run.events := by
  cases hselect : select cases fallback (conditionIn condition input) with
  | none =>
    rw [runSwitch_of_none signature policy hselect]
    rfl
  | some branch =>
    rw [runSwitch_of_selected signature policy hselect, Run.andThen_ofExcept]
    exact events_resolveAndInvoke policy .empty ⟨input⟩ branch

end Executable

end WorkflowEngine
