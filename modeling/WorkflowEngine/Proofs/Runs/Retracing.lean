import WorkflowEngine.Proofs.Runs.Sequences
import WorkflowEngine.Proofs.Runs.Simulation

/-!
# Runs that retrace each other

Two runs retrace each other when they end alike at the same time and the same happens in them at the
same times; only what composites could draw on may be recorded differently. All modules but text
generations, tools and calls read their input by name. On inputs that bind names alike they retrace
each other, since the children of composites are given the same.
-/

namespace WorkflowEngine

/-- An event without what a composite could draw on. -/
def Event.bare : Event → Event
  | .invoked i => .invoked { i with available := .empty }
  | e => e

namespace Run

variable {α β : Type}

/-- A log without what composites could draw on. -/
def bareLog (log : EventLog) : EventLog := log.map fun e => (e.1, e.2.bare)

/-- Logs one after the other are bared one after the other. -/
theorem bareLog_append (log log' : EventLog) :
    bareLog (log ++ log') = bareLog log ++ bareLog log' := List.map_append

/-- A log is bared alike whether before or after a delay. -/
theorem bareLog_delay (nanos : Nat) (log : EventLog) :
    bareLog (delay nanos log) = delay nanos (bareLog log) := by
  rw [bareLog, bareLog, delay, delay, List.map_map, List.map_map]
  rfl

/-- Calls of capabilities are in the log as they were. -/
theorem filter_isCall_bareLog (log : EventLog) :
    ((bareLog log).map Prod.snd).filter Event.isCall = (log.map Prod.snd).filter Event.isCall := by
  induction log with
  | nil => rfl
  | cons e rest ih =>
    obtain ⟨nanos, event⟩ := e
    cases event with
    | invoked i => exact ih
    | generated prompt answer => exact congrArg (Event.generated prompt answer :: ·) ih
    | called tool args answer => exact congrArg (Event.called tool args answer :: ·) ih
    | requested request answer => exact congrArg (Event.requested request answer :: ·) ih

/-- A run that goes on twice. -/
theorem andThen_assoc {γ : Type} (r : Run α) (f : α → Run β) (g : β → Run γ) :
    (r.andThen f).andThen g = r.andThen fun a => (f a).andThen g := by
  cases hr : r.outcome with
  | error e => simp only [andThen, hr]
  | ok a =>
    cases hf : (f a).outcome with
    | error e => simp only [andThen, hr, hf]
    | ok b =>
      simp only [andThen, hr, hf, delay, List.map_append, List.map_map, List.append_assoc,
        Nat.add_assoc, Function.comp_def]

/-- Two runs end alike at the same time, and the same happens in them at the same times but for what
composites could draw on. -/
structure Retraces (x y : Run α) : Prop where
  /-- They end alike. -/
  outcome : x.outcome = y.outcome
  /-- They take the same time. -/
  elapsed : x.elapsed = y.elapsed
  /-- The same happens at the same times. -/
  log : bareLog x.log = bareLog y.log

namespace Retraces

theorem refl (x : Run α) : x.Retraces x := ⟨rfl, rfl, rfl⟩

/-- They make the same calls in the same order. -/
theorem calls {x y : Run α} (h : x.Retraces y) : x.calls = y.calls := by
  rw [Run.calls, Run.calls, events, events, ← filter_isCall_bareLog, h.log, filter_isCall_bareLog]

/-- Runs one after the other. -/
theorem andThen {x y : Run α} {f g : α → Run β} (h : x.Retraces y)
    (hfg : ∀ a, x.outcome = .ok a → (f a).Retraces (g a)) :
    (x.andThen f).Retraces (y.andThen g) := by
  cases hx : x.outcome with
  | error e =>
    have hy : y.outcome = .error e := h.outcome.symm.trans hx
    simp only [Run.andThen, hx, hy]
    exact ⟨rfl, h.elapsed, h.log⟩
  | ok a =>
    have hy : y.outcome = .ok a := h.outcome.symm.trans hx
    have hnext := hfg a hx
    simp only [Run.andThen, hx, hy]
    refine ⟨hnext.outcome, congrArg₂ (· + ·) h.elapsed hnext.elapsed, ?_⟩
    rw [bareLog_append, bareLog_append, bareLog_delay, bareLog_delay, h.log, hnext.log, h.elapsed]

/-- Within a limit of time runs that retrace each other do so still. -/
theorem withinLimit {x y : Run α} (h : x.Retraces y) (limit : Option Duration) :
    (x.withinLimit limit).Retraces (y.withinLimit limit) := by
  cases limit with
  | none => exact h
  | some limit =>
    have hfilter (log : EventLog) : bareLog (log.filter fun e => e.1 ≤ limit.nanos) =
        (bareLog log).filter fun e => e.1 ≤ limit.nanos := by
      rw [bareLog, bareLog, List.filter_map]
      rfl
    rw [Run.withinLimit, Run.withinLimit, within, within, h.elapsed]
    split
    · exact h
    · refine ⟨rfl, rfl, ?_⟩
      rw [hfilter, hfilter, h.log]

end Retraces

/-! ## Runs at the same time -/

section Together

variable {runs runs' : List (Run α)}

theorem outcomes_of_retraces (h : List.Forall₂ Retraces runs runs') :
    runs.map (fun r => some r.outcome) = runs'.map fun r => some r.outcome := by
  induction h with
  | nil => rfl
  | cons hr _ ih => rw [List.map_cons, List.map_cons, hr.outcome, ih]

/-- Runs that go alike take the same time together. -/
theorem longest_of_retraces (h : List.Forall₂ Retraces runs runs') :
    longest runs = longest runs' := by
  have hfrom (nanos : Nat) : runs.foldl (fun t r => max t r.elapsed) nanos =
      runs'.foldl (fun t r => max t r.elapsed) nanos := by
    induction h generalizing nanos with
    | nil => rfl
    | cons hr _ ih => rw [List.foldl_cons, List.foldl_cons, hr.elapsed, ih]
  exact hfrom 0

/-- Logs are merged by time, whatever is recorded in them. -/
theorem bareLog_mergedLog (runs : List (Run α)) :
    bareLog (mergedLog runs) =
      (runs.flatMap fun r => bareLog r.log).mergeSort fun a b => a.1 ≤ b.1 := by
  have hmerge := List.map_mergeSort (r := fun a b : Nat × Event => decide (a.1 ≤ b.1))
    (s := fun a b => decide (a.1 ≤ b.1)) (f := fun e => (e.1, e.2.bare))
    (l := runs.flatMap Run.log) fun _ _ _ _ => rfl
  rw [bareLog, mergedLog, hmerge, List.map_flatMap]
  rfl

/-- Runs at the same time that go alike have the same log but for what composites could draw on. -/
theorem mergedLog_of_retraces (h : List.Forall₂ Retraces runs runs') :
    bareLog (mergedLog runs) = bareLog (mergedLog runs') := by
  have hlogs : (runs.flatMap fun r => bareLog r.log) = runs'.flatMap fun r => bareLog r.log := by
    induction h with
    | nil => rfl
    | cons hr _ ih => rw [List.flatMap_cons, List.flatMap_cons, hr.log, ih]
  rw [bareLog_mergedLog, bareLog_mergedLog, hlogs]

end Together

end Run

/-! ## Inputs that bind names alike -/

namespace Executable

open Run

variable {available available' : ValueSet}

/-- What a composite could draw on is recorded of a child and does not show in its run. -/
theorem retraces_invoke (child : Executable) (mapping : Dictionary String)
    (available available' : ValueSet) (input : List Value) :
    (child.invoke mapping available input).Retraces (child.invoke mapping available' input) := by
  refine ⟨rfl, rfl, ?_⟩
  rw [invoke, invoke, closing, closing, bareLog_append, bareLog_append]
  rfl

theorem retraces_resolveAndInvoke (h : available.bindings = available'.bindings)
    (policy : InputPolicy) (mapping : Dictionary String) (child : Executable) :
    (child.resolveAndInvoke policy mapping available).Retraces
      (child.resolveAndInvoke policy mapping available') := by
  unfold resolveAndInvoke
  rw [resolveInputs_eq_resolve, resolveInputs_eq_resolve, h]
  exact (Retraces.refl _).andThen fun input _ => retraces_invoke child mapping _ _ input

/-- Steps retrace each other, and so does what depends on nothing but the bindings after them. -/
theorem retraces_runSteps (policy : InputPolicy) (steps : List (Step Executable)) {β : Type}
    {next : ValueSet → Run β}
    (hnext : ∀ s s' : ValueSet, s.bindings = s'.bindings → (next s).Retraces (next s'))
    (h : available.bindings = available'.bindings) :
    ((runSteps policy steps available).andThen next).Retraces
      ((runSteps policy steps available').andThen next) := by
  induction steps generalizing available available' with
  | nil =>
    rw [runSteps, runSteps, ofExcept_ok_andThen, ofExcept_ok_andThen]
    exact hnext available available' h
  | cons step rest ih =>
    rw [runSteps, runSteps, andThen_assoc, andThen_assoc]
    refine (retraces_resolveAndInvoke h policy _ _).andThen fun outputs _ => ih ?_
    rw [ValueSet.bindings_mergeAll, ValueSet.bindings_mergeAll, h]

/-- Branches are made ready alike where names are bound alike. -/
theorem resolveBranches_congr (h : available.bindings = available'.bindings)
    (policy : InputPolicy) (branches : List Executable) :
    resolveBranches policy available branches = resolveBranches policy available' branches := by
  induction branches with
  | nil => rfl
  | cons b rest ih =>
    rw [resolveBranches, resolveBranches, resolveInputs_eq_resolve, resolveInputs_eq_resolve, h, ih]

/-- Fan-outs retrace each other, whatever the schedule makes of what is recorded. -/
theorem retraces_runParallelBy (schedule : Schedule) (id : ModuleId) (signature : Signature)
    (policy : InputPolicy) (branches : List Executable) {input input' : List Value}
    (h : Bindings.ofList input = Bindings.ofList input') :
    (runParallelBy schedule id signature policy branches input).Retraces
      (runParallelBy schedule id signature policy branches input') := by
  have hbranches : resolveBranches policy ⟨input⟩ branches =
      resolveBranches policy ⟨input'⟩ branches := resolveBranches_congr h policy branches
  simp only [runParallelBy, hbranches]
  refine (Retraces.refl _).andThen fun ready hready => ?_
  have hlength : ready.length = branches.length :=
    (forall₂_of_resolveBranches_eq_ok hready).length_eq.symm
  have hruns : List.Forall₂ Retraces (branchRuns ⟨input⟩ ready) (branchRuns ⟨input'⟩ ready) := by
    rw [branchRuns, branchRuns, List.forall₂_map_left_iff, List.forall₂_map_right_iff,
      List.forall₂_same]
    exact fun b _ => retraces_invoke b.1 .empty _ _ b.2
  have hslots (available : ValueSet) :
      slots branches.length (schedule.arrivals (branchRuns available ready)) =
        (branchRuns available ready).map fun r => some r.outcome := by
    rw [← hlength, ← slots_of_perm (schedule.perm _), branchRuns, List.length_map]
  rw [andThen_ofExcept, andThen_ofExcept]
  refine ⟨?_, longest_of_retraces hruns, mergedLog_of_retraces hruns⟩
  show Except.map _ (joinFrom id 0 (slots branches.length _)) =
    Except.map _ (joinFrom id 0 (slots branches.length _))
  rw [← branchRuns, ← branchRuns, hslots, hslots, outcomes_of_retraces hruns]

/-- Switches select the same branch. -/
theorem retraces_runSwitch (signature : Signature) (policy : InputPolicy) (condition : String)
    (cases : List (Case Executable)) (fallback : Option Executable) {input input' : List Value}
    (h : Bindings.ofList input = Bindings.ofList input') :
    (runSwitch signature policy condition cases fallback input).Retraces
      (runSwitch signature policy condition cases fallback input') := by
  have hcondition : conditionIn condition input = conditionIn condition input' :=
    congrArg (Option.getD · Payload.null) (congrFun h condition)
  cases hselect : select cases fallback (conditionIn condition input) with
  | none =>
    rw [runSwitch_of_none signature policy hselect,
      runSwitch_of_none signature policy (hcondition ▸ hselect), hcondition]
    exact .refl _
  | some branch =>
    rw [runSwitch_of_selected signature policy hselect,
      runSwitch_of_selected signature policy (hcondition ▸ hselect)]
    exact (retraces_resolveAndInvoke h policy .empty branch).andThen fun _ _ => .refl _

theorem textInput?_eq (available : ValueSet) (name : String) :
    textInput? available name = (available.bindings name).bind Payload.asText? := by
  unfold textInput? ValueSet.bindings
  cases available.get? name <;> rfl

/-- A request is made of what is read by name. -/
theorem httpRequest_congr (h : available.bindings = available'.bindings) (id : ModuleId) :
    httpRequest id available = httpRequest id available' := by
  simp only [httpRequest, textInput?_eq, h]

theorem extractionInput_congr (h : available.bindings = available'.bindings) (id : ModuleId) :
    extractionInput id available = extractionInput id available' := by
  have hjson : (available.get? "json").map Value.payload =
      (available'.get? "json").map Value.payload := congrFun h "json"
  rw [extractionInput, extractionInput, hjson]

end Executable

/-- Whether a module of a kind reads its input by name only: it looks up what names are bound to
and makes no other use of it. -/
def Kind.ReadsByName {ρ α : Type} : Kind ρ α → Prop
  | .sequential _ | .parallel _ | .switch _ _ _ | .http | .jsonExtract _ => True
  | .subWorkflow _ | .llm _ | .tool _ => False

/-- On inputs that bind names alike a module that reads its input by name runs alike. -/
theorem Executable.retraces_ofKindBy (c : Context) (schedule : Schedule) (id : ModuleId)
    (signature : Signature) {kind : Kind Executable Executable} (hkind : kind.ReadsByName)
    {input input' : List Value} (h : Bindings.ofList input = Bindings.ofList input') :
    ((ofKindBy c schedule id signature kind).run input).Retraces
      ((ofKindBy c schedule id signature kind).run input') := by
  cases kind with
  | sequential steps =>
    refine retraces_runSteps c.policy steps (fun s s' hs => ?_) h
    rw [gatherOutputs_eq_gather, gatherOutputs_eq_gather, hs]
    exact .refl _
  | parallel branches => exact retraces_runParallelBy schedule id signature c.policy branches h
  | switch condition cases fallback =>
    exact retraces_runSwitch signature c.policy condition cases fallback h
  | http =>
    have hrequest : httpRequest id ⟨input⟩ = httpRequest id ⟨input'⟩ := httpRequest_congr h id
    simp only [ofKindBy, run_ofKind, runKind, runHttp, hrequest]
    exact .refl _
  | jsonExtract path =>
    have hdocument : extractionInput id ⟨input⟩ = extractionInput id ⟨input'⟩ :=
      extractionInput_congr h id
    simp only [ofKindBy, run_ofKind, runKind, runExtract, hdocument]
    exact .refl _
  | subWorkflow _ | llm _ | tool _ => exact hkind.elim

end WorkflowEngine
