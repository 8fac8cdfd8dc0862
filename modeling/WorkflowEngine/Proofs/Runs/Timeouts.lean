import WorkflowEngine.Engine
import WorkflowEngine.Proofs.Runs.Failures
import WorkflowEngine.Proofs.Runs.Limits
import Mathlib.Data.List.Permutation

/-!
# Longer timeouts

Every module runs in the order of time when the capabilities of its surroundings do. So the runs of
an engine that gives the same module more time, or all the time it takes, go on where the run under
the shorter limit was cut off, and are the same if it was not.
-/

namespace WorkflowEngine

/-- What the capabilities of the surroundings put into a log is in the order of time, and nothing of
it comes after the answer. -/
structure Context.Timely (c : Context) : Prop where
  /-- This is so when a text is generated. -/
  client : ∀ prompt, (c.client.generate prompt).Timely
  /-- This is so when a tool is called. -/
  tools : ∀ name tool, c.tools.find? name = some tool → ∀ args, (tool.call args).Timely
  /-- This is so when a request is sent. -/
  fetch : ∀ request, (c.fetch request).Timely

/-- A module ready to run whose runs are in the order of time. -/
def Executable.Timely (x : Executable) : Prop := ∀ input, (x.run input).Timely

namespace Executable

variable {c : Context}

/-! ## Composites -/

namespace Timely

/-- A child is invoked in the order of time. -/
theorem invoke {child : Executable} (h : child.Timely) (mapping : Dictionary String)
    (available : ValueSet) (input : List Value) : (child.invoke mapping available input).Timely :=
  (h input).closing _

theorem resolveAndInvoke {child : Executable} (h : child.Timely) (policy : InputPolicy)
    (mapping : Dictionary String) (available : ValueSet) :
    (child.resolveAndInvoke policy mapping available).Timely :=
  (Run.Timely.ofExcept _).andThen fun input _ => h.invoke mapping available input

end Timely

/-- Steps run one after the other. -/
theorem timely_runSteps (policy : InputPolicy) {steps : List (Step Executable)}
    (h : ∀ x ∈ steps.map Step.child, x.Timely) (current : ValueSet) :
    (runSteps policy steps current).Timely := by
  induction steps generalizing current with
  | nil => exact .ofExcept _
  | cons step rest ih =>
    rw [List.map_cons, List.forall_mem_cons] at h
    have hstep := h.1.resolveAndInvoke policy step.mapping current
    exact hstep.andThen fun outputs _ => ih h.2 (current.mergeAll outputs)

/-- Branches run at the same time. -/
theorem timely_runParallel (id : ModuleId) (signature : Signature) (policy : InputPolicy)
    {branches : List Executable} (h : ∀ x ∈ branches, x.Timely) (input : List Value) :
    (runParallel id signature policy branches input).Timely := by
  refine (Run.Timely.ofExcept _).andThen fun ready hready => ?_
  have hruns : ∀ r ∈ ready.map fun b => b.1.invoke .empty ⟨input⟩ b.2, r.Timely := by
    intro r hr
    obtain ⟨⟨b, taken⟩, hb, rfl⟩ := List.mem_map.1 hr
    obtain ⟨_, hmem, rfl, _⟩ := exists_mem_of_forall₂ (forall₂_of_resolveBranches_eq_ok hready) hb
    exact (h b hmem).invoke .empty ⟨input⟩ taken
  exact (Run.Timely.together hruns).andThen fun _ _ => .ofExcept _

/-- A switch runs the branch that it selects. -/
theorem timely_runSwitch (signature : Signature) (policy : InputPolicy) (condition : String)
    {cases : List (Case Executable)} {fallback : Option Executable}
    (h : ∀ x ∈ cases.map Case.child ++ fallback.toList, x.Timely) (input : List Value) :
    (runSwitch signature policy condition cases fallback input).Timely := by
  unfold runSwitch
  simp only
  split
  · exact .ofExcept _
  · next branch hselect =>
    have hbranch := h branch (mem_of_select_eq_some hselect)
    exact (hbranch.resolveAndInvoke policy .empty ⟨input⟩).andThen fun _ _ => .ofExcept _

/-! ## Leaves -/

theorem timely_runTool (hc : c.Timely) (signature : Signature) (name : String)
    (input : List Value) : (runTool signature c.tools name input).Timely := by
  unfold runTool
  split
  · exact .ofExcept _
  · next tool hfind =>
    have hcall := hc.tools name tool hfind (toolArgs input)
    exact ((hcall.closing _).mapError _).andThen fun _ _ => .ofExcept _

/-- A request is in the order of time if the fetch is. -/
theorem timely_runHttp (hc : c.Timely) (id : ModuleId) (signature : Signature)
    (input : List Value) : (runHttp id signature c.fetch input).Timely :=
  (Run.Timely.ofExcept _).andThen fun request _ =>
    ((hc.fetch request).closing _).andThen fun _ _ => .ofExcept _

/-! ## Modules -/

/-- A module runs in the order of time if its children and what it refers to do. -/
theorem timely_ofKind (hc : c.Timely) (id : ModuleId) (signature : Signature)
    {kind : Kind Executable Executable} (htarget : ∀ x ∈ kind.target?, x.Timely)
    (hchildren : ∀ x ∈ kind.children, x.Timely) : (ofKind c id signature kind).Timely := by
  intro input
  cases kind with
  | sequential steps =>
    exact (timely_runSteps c.policy hchildren ⟨input⟩).andThen fun _ _ => .ofExcept _
  | parallel branches => exact timely_runParallel id signature c.policy hchildren input
  | switch condition cases fallback =>
    exact timely_runSwitch signature c.policy condition hchildren input
  | subWorkflow target => exact htarget target rfl input
  | llm template => exact ((hc.client _).closing _).andThen fun _ _ => .ofExcept _
  | tool name => exact timely_runTool hc signature name input
  | http => exact timely_runHttp hc id signature input
  | jsonExtract path => exact (Run.Timely.ofExcept _).andThen fun _ _ => .ofExcept _

end Executable

/-- Every module runs in the order of time in timely surroundings. -/
theorem Module.timely_run {c : Context} (hc : c.Timely) (m : Module) (input : List Value) :
    (m.run c input).Timely := by
  have hm : (m.executable c).Timely := by
    induction m using induct with
    | step id signature kind hchildren htarget =>
      rw [executable, fold_mk]
      apply Executable.timely_ofKind hc id signature
      · intro x hx
        rw [Kind.target?_map] at hx
        obtain ⟨t, ht, rfl⟩ := Option.map_eq_some_iff.1 hx
        exact htarget t ht
      · intro x hx
        rw [Kind.children_map] at hx
        obtain ⟨child, hchild, rfl⟩ := List.mem_map.1 hx
        exact hchildren child hchild
  exact hm input

namespace Engine

/-- An engine that gives a module more time than another, or all the time that it takes:

1. if the run under the shorter limit does not end with the timeout of this limit, the other is the
   same run;
2. in any case what the shorter run has in its log is a beginning of what the longer one has, and so
   are the calls of capabilities that were completed;
3. the shorter run has in its log everything that the longer one completes up to the limit, and
   nothing else. -/
theorem execute_of_longer_limit {e : Engine} {executionId : String} {input : List Value}
    (htimely : (e.context executionId input).Timely) (m : Module) {limit : Duration}
    {limit' : Option Duration} (hle : ∀ l ∈ limit', limit.nanos ≤ l.nanos) :
    let short := { e with timeout := some limit }.execute executionId m input
    let long := { e with timeout := limit' }.execute executionId m input
    (short.outcome ≠ .error (.timeout limit) → long = short) ∧
      (short.log <+: long.log ∧ short.calls <+: long.calls) ∧
      ∀ event, event ∈ short.log ↔ event ∈ long.log ∧ event.1 ≤ limit.nanos := by
  intro short long
  have hrun : (m.run (e.context executionId input) input).Timely := m.timely_run htimely input
  have hshort : short = (m.run (e.context executionId input) input).withinLimit (some limit) := rfl
  have hlong : long = (m.run (e.context executionId input) input).withinLimit limit' := rfl
  have hbegin : short.log <+: long.log := Run.log_withinLimit_isPrefix hrun hle
  refine ⟨?_, ⟨hbegin, (hbegin.map Prod.snd).filter Event.isCall⟩, ?_⟩
  · intro houtcome
    rw [hshort] at houtcome ⊢
    rw [hlong]
    exact Run.withinLimit_of_longer houtcome hle
  · intro event
    rw [hshort, hlong, Run.mem_log_withinLimit_iff hrun, Run.mem_log_withinLimit_iff hrun]
    constructor
    · rintro ⟨hmem, htime⟩
      have hend := htime limit rfl
      exact ⟨⟨hmem, fun l hl => Nat.le_trans hend (hle l hl)⟩, hend⟩
    · rintro ⟨⟨hmem, _⟩, hend⟩
      exact ⟨hmem, fun l hl => Option.some.inj hl ▸ hend⟩

/-- A tool that gives a number after some time. -/
def slowTool (name : String) (nanos : Nat) : Tool :=
  ⟨name, "", fun _ => (Run.ofExcept (.ok (.integer 1))).after nanos⟩

/-- An engine with two tools, one slower than the other. -/
def pacing : Engine :=
  { Engine.new .empty .unreachable with tools := .ofList [slowTool "short" 3, slowTool "long" 4] }

/-- The tools are in the order of time: each does nothing but take its time. -/
theorem timely_pacing : (pacing.context "run" []).Timely where
  client := fun _ => .ofExcept _
  tools := by
    intro name tool hfind args
    have hmem : tool ∈ [slowTool "long" 4, slowTool "short" 3] := List.mem_of_find?_eq_some hfind
    simp only [List.mem_cons, List.not_mem_nil, or_false] at hmem
    rcases hmem with rfl | rfl
    · exact (Run.Timely.ofExcept _).after 4
    · exact (Run.Timely.ofExcept _).after 3
  fetch := fun _ => .ofExcept _

/-- Two calls one after the other, and a third at the same time. -/
def uneven : Module :=
  .mk "both" (.ofSides [] [.required "once" .integer]) (.parallel [
    .mk "twice" .empty (.sequential [⟨.mk "first" .empty (.tool "short"), .empty⟩,
      ⟨.mk "second" .empty (.tool "short"), .empty⟩]),
    .mk "once" (.ofSides [] [.required "once" .integer]) (.tool "long")])

/-- A run of the three calls that may be limited. -/
def runUneven (limit : Option Duration) : Run (List Value) :=
  { pacing with timeout := limit }.execute "run" uneven []

/-- After five nanoseconds one branch has ended and the other is under way: the run ends with the
timeout, and its log is the beginning of the whole one. Six nanoseconds are enough. -/
theorem runUneven_of_longer_limit :
    ((runUneven (some ⟨5⟩)).outcome = .error (.timeout ⟨5⟩) ∧
      (runUneven (some ⟨5⟩)).log.map Prod.fst = [3, 3, 4, 4] ∧
      (runUneven (some ⟨5⟩)).log <+: (runUneven none).log) ∧
    (runUneven (some ⟨6⟩)).outcome = .ok [⟨.required "once" .integer, .integer 1⟩] ∧
      runUneven none = runUneven (some ⟨6⟩) := by
  have hshort := @execute_of_longer_limit pacing "run" [] timely_pacing uneven ⟨5⟩ none nofun
  have hlong := @execute_of_longer_limit pacing "run" [] timely_pacing uneven ⟨6⟩ none nofun
  have htimes : (runUneven (some ⟨5⟩)).log.map Prod.fst = [3, 3, 4, 4] := by cbv
  have hends : (runUneven (some ⟨6⟩)).outcome =
      .ok [⟨.required "once" .integer, .integer 1⟩] := by cbv
  have htime : (runUneven (some ⟨6⟩)).outcome ≠ .error (.timeout ⟨6⟩) := by
    intro h
    cases hends.symm.trans h
  exact ⟨⟨rfl, htimes, hshort.2.1.1⟩, hends, hlong.1 htime⟩

end Engine

end WorkflowEngine
