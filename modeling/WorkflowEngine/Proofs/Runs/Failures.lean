import WorkflowEngine.Proofs.Runs.Simulation
import WorkflowEngine.Proofs.Runs.Strictness

/-!
# Where failures come from

A run fails for a reason that one of its modules raises by itself, or with what a text generation or
a fetch is answered with. Nothing else is possible in whatever way a module runs: composites pass on
the failures of their children, a tool's failure is named after the tool, and the place of a branch
is never found empty.
-/

namespace WorkflowEngine

/-- Where an error comes from, given the calls that have been made. -/
inductive Error.Origin (P : Context → Prop) (calls : List Event) : Error → Prop where
  /-- A switch has no branch for what its condition is bound to. -/
  | unmatchedCondition (name value : String) : Origin P calls (.unmatchedCondition name value)
  /-- The policy is strict. -/
  | strict {c : Context} (hc : P c) (hpolicy : c.policy = .strict) {e : Error}
    (h : e.StrictOnly) : Origin P calls e
  /-- A tool is not there. -/
  | toolNotFound {c : Context} (hc : P c) {name : String} (h : c.tools.find? name = none) :
    Origin P calls (.toolNotFound name)
  /-- A tool fails. -/
  | tool (name text : String) : Origin P calls (.tool name text)
  /-- A leaf cannot do its work. -/
  | leaf (fault : LeafFault) : Origin P calls (.leaf fault)
  /-- A leaf is given a text that is not JSON. -/
  | json (reason : String) : Origin P calls (.json reason)
  /-- A prompt is answered with the error. -/
  | generated {c : Context} (hc : P c) {prompt : String} {e : Error}
    (hanswer : (c.client.generate prompt).outcome = .error e)
    (hcall : .generated prompt (.error e) ∈ calls) : Origin P calls e
  /-- A request is answered with the error. -/
  | requested {c : Context} (hc : P c) {request : Http.Request} {e : Error}
    (hanswer : (c.fetch request).outcome = .error e)
    (hcall : .requested request (.error e) ∈ calls) : Origin P calls e

variable {P : Context → Prop}

/-- An error keeps its origin among further calls. -/
theorem Error.Origin.mono {calls calls' : List Event} {e : Error} (h : e.Origin P calls)
    (hsub : calls ⊆ calls') : e.Origin P calls' := by
  cases h with
  | unmatchedCondition name value => exact .unmatchedCondition name value
  | strict hc hpolicy h => exact .strict hc hpolicy h
  | toolNotFound hc h => exact .toolNotFound hc h
  | tool name text => exact .tool name text
  | leaf fault => exact .leaf fault
  | json reason => exact .json reason
  | generated hc hanswer hcall => exact .generated hc hanswer (hsub hcall)
  | requested hc hanswer hcall => exact .requested hc hanswer (hsub hcall)

namespace Run

variable {α β : Type}

/-- A run accounts for its failure: the error has an origin among the calls of the run. -/
def Accounts (P : Context → Prop) (r : Run α) : Prop :=
  ∀ e, r.outcome = .error e → e.Origin P r.calls

namespace Accounts

theorem of_ok {r : Run α} {a : α} (h : r.outcome = .ok a) : r.Accounts P :=
  fun _ he => nomatch h.symm.trans he

theorem of_error {r : Run α} {e : Error} (h : r.outcome = .error e) (horigin : e.Origin P r.calls) :
    r.Accounts P := by
  intro e' he'
  cases h.symm.trans he'
  exact horigin

/-- An invocation that closes a run is no call, and changes nothing. -/
theorem closing_invoked {r : Run α} (h : r.Accounts P) (i : Except Error α → Invocation) :
    (r.closing fun outcome => .invoked (i outcome)).Accounts P := by
  intro e he
  apply (h e he).mono
  rw [calls, calls, events_closing, List.filter_append]
  exact List.subset_append_left _ _

/-- A run, and after it what depends on its result. -/
theorem andThen {r : Run α} {next : α → Run β} (h : r.Accounts P)
    (hnext : ∀ a, (next a).Accounts P) : (r.andThen next).Accounts P := by
  cases hr : r.outcome with
  | error e =>
    refine of_error (andThen_of_error next hr).1 ?_
    rw [calls_andThen_of_error next hr]
    exact h e hr
  | ok a =>
    intro e he
    rw [(andThen_of_ok next hr).1] at he
    rw [calls_andThen_of_ok next hr]
    exact (hnext a e he).mono (List.subset_append_right _ _)

end Accounts

end Run

namespace Executable

/-! ## Composites -/

/-- Inputs fail to be resolved under the strict policy only, for one that is required and to whose
source nothing is bound. -/
theorem exists_of_resolveInputs_eq_error {child : ModuleId} {mapping : Dictionary String}
    {policy : InputPolicy} {available : ValueSet} {specs : List ValueSpec} {e : Error}
    (h : resolveInputs child mapping policy available specs = .error e) :
    policy = .strict ∧ ∃ spec ∈ specs, spec.optional = false ∧
      available.get? (sourceName mapping spec) = none ∧
        e = .unresolvedInput (child ++ "." ++ spec.name) (sourceName mapping spec) := by
  induction specs with
  | nil => cases h
  | cons spec rest ih =>
    have hrest : resolveInputs child mapping policy available rest = .error e →
        policy = .strict ∧ ∃ spec' ∈ spec :: rest, spec'.optional = false ∧
          available.get? (sourceName mapping spec') = none ∧
            e = .unresolvedInput (child ++ "." ++ spec'.name) (sourceName mapping spec') := by
      intro h
      obtain ⟨hpolicy, spec', hmem, hspec⟩ := ih h
      exact ⟨hpolicy, spec', List.mem_cons_of_mem spec hmem, hspec⟩
    unfold resolveInputs at h
    cases hv : available.get? (sourceName mapping spec) with
    | some v =>
      simp only [hv] at h
      exact hrest (map_eq_error_iff.1 h)
    | none =>
      simp only [hv] at h
      split at h
      · next hstrict =>
        cases h
        simp only [InputPolicy.isStrict, Bool.and_eq_true, Bool.not_eq_true', beq_iff_eq] at hstrict
        exact ⟨hstrict.2, spec, List.mem_cons_self, hstrict.1, hv, rfl⟩
      · exact hrest h

/-- Where inputs are not resolved, the policy is strict and the error is one of that policy only. -/
theorem strictOnly_of_resolveInputs {child : ModuleId} {mapping : Dictionary String}
    {policy : InputPolicy} {available : ValueSet} {specs : List ValueSpec} {e : Error}
    (h : resolveInputs child mapping policy available specs = .error e) :
    policy = .strict ∧ e.StrictOnly := by
  obtain ⟨hpolicy, spec, _, _, _, rfl⟩ := exists_of_resolveInputs_eq_error h
  exact ⟨hpolicy, .unresolvedInput _ _⟩

/-- The inputs of branches fail to be resolved because those of one branch do. -/
theorem exists_of_resolveBranches_eq_error {policy : InputPolicy} {available : ValueSet}
    {branches : List Executable} {e : Error}
    (h : resolveBranches policy available branches = .error e) :
    ∃ b ∈ branches, resolveInputs b.id .empty policy available b.signature.input = .error e := by
  induction branches with
  | nil => cases h
  | cons b rest ih =>
    unfold resolveBranches at h
    rcases bind_eq_error_iff.1 h with hinput | ⟨input, _, h⟩
    · exact ⟨b, List.mem_cons_self, hinput⟩
    · rcases bind_eq_error_iff.1 h with hrest | ⟨ready, _, h⟩
      · obtain ⟨b', hmem, hb'⟩ := ih hrest
        exact ⟨b', List.mem_cons_of_mem b hmem, hb'⟩
      · cases h

/-- Declared outputs are missed under the strict policy only. -/
theorem strictOnly_of_gatherOutputs {id : ModuleId} {policy : InputPolicy}
    {declared : List ValueSpec} {current : ValueSet} {e : Error}
    (h : gatherOutputs id policy declared current = .error e) :
    policy = .strict ∧ e.StrictOnly := by
  unfold gatherOutputs at h
  split at h
  · cases h
    exact ⟨rfl, .missingOutput _⟩
  · cases h

/-- If outcomes of branches are not joined, one of the branches has failed: no place is empty. -/
theorem mem_of_joinFrom_eq_error {id : ModuleId} {place : Nat} {runs : List (Run (List Value))}
    {e : Error} (h : joinFrom id place (runs.map fun r => some r.outcome) = .error e) :
    ∃ r ∈ runs, r.outcome = .error e := by
  induction runs generalizing place with
  | nil => cases h
  | cons r rest ih =>
    rw [List.map_cons] at h
    cases hr : r.outcome with
    | error e' =>
      rw [hr] at h
      cases h
      exact ⟨r, List.mem_cons_self, hr⟩
    | ok outputs =>
      rw [hr, joinFrom] at h
      obtain ⟨r', hr', he⟩ := ih (map_eq_error_iff.1 h)
      exact ⟨r', List.mem_cons_of_mem r hr', he⟩

/-- All runs of an executable account for their failures. -/
def Accounts (P : Context → Prop) (x : Executable) : Prop := ∀ input, (x.run input).Accounts P

variable {c : Context} {x : Executable}

/-- What is selected is the branch of a case or the fallback. -/
theorem mem_of_select_eq_some {α : Type} {cases : List (Case α)} {fallback : Option α} {p : Payload}
    {branch : α} (h : select cases fallback p = some branch) :
    branch ∈ cases.map Case.child ++ fallback.toList := by
  rw [select, Option.or_eq_some_iff] at h
  rcases h with h | ⟨_, h⟩
  · obtain ⟨found, hfound, rfl⟩ := Option.map_eq_some_iff.1 h
    exact List.mem_append_left _ (List.mem_map_of_mem (List.mem_of_find?_eq_some hfound))
  · exact List.mem_append_right _ (Option.mem_toList.2 h)

/-- A child whose inputs are resolved under the policy of the surroundings. -/
theorem Accounts.resolveAndInvoke (h : x.Accounts P) (hc : P c) (mapping : Dictionary String)
    (available : ValueSet) : (x.resolveAndInvoke c.policy mapping available).Accounts P := by
  refine Run.Accounts.andThen ?_ fun input => (h input).closing_invoked _
  intro e he
  obtain ⟨hpolicy, honly⟩ := strictOnly_of_resolveInputs he
  exact .strict hc hpolicy honly

/-- Steps one after the other. -/
theorem accounts_runSteps (hc : P c) {steps : List (Step Executable)}
    (h : ∀ x ∈ steps.map Step.child, x.Accounts P) (current : ValueSet) :
    (runSteps c.policy steps current).Accounts P := by
  induction steps generalizing current with
  | nil => exact .of_ok rfl
  | cons step rest ih =>
    rw [List.map_cons, List.forall_mem_cons] at h
    unfold runSteps
    exact (h.1.resolveAndInvoke hc _ current).andThen fun outputs => ih h.2 _

/-- Branches at the same time, in whatever order they end. -/
theorem accounts_runParallelBy (schedule : Schedule) (hc : P c) (id : ModuleId)
    (signature : Signature) {branches : List Executable} (h : ∀ x ∈ branches, x.Accounts P)
    (input : List Value) :
    (runParallelBy schedule id signature c.policy branches input).Accounts P := by
  cases hready : resolveBranches c.policy ⟨input⟩ branches with
  | error e =>
    obtain ⟨b, _, hb⟩ := exists_of_resolveBranches_eq_error hready
    obtain ⟨hpolicy, honly⟩ := strictOnly_of_resolveInputs hb
    exact .of_error (runParallelBy_of_error schedule id signature hready).1
      (.strict hc hpolicy honly)
  | ok ready =>
    obtain ⟨houtcome, hevents⟩ := runParallelBy_of_ready schedule id signature hready
    have hcalls := hevents.filter Event.isCall
    rw [Run.calls_flatMap] at hcalls
    have hbranches : ∀ b ∈ ready, b.1.Accounts P := by
      intro b hb
      obtain ⟨x, hx, hbranch, _⟩ :=
        exists_mem_of_forall₂ (forall₂_of_resolveBranches_eq_ok hready) hb
      exact hbranch ▸ h x hx
    intro e he
    rw [houtcome] at he
    obtain ⟨r, hr, hfails⟩ := mem_of_joinFrom_eq_error (map_eq_error_iff.1 he)
    have hbranch : r.Accounts P := by
      obtain ⟨b, hb, rfl⟩ := List.mem_map.1 hr
      exact (hbranches b hb b.2).closing_invoked _
    apply (hbranch e hfails).mono
    intro call hcall
    exact hcalls.mem_iff.2 (List.mem_flatMap.2 ⟨r, hr, hcall⟩)

/-- A switch. -/
theorem accounts_runSwitch (hc : P c) (signature : Signature) (condition : String)
    {cases : List (Case Executable)} {fallback : Option Executable}
    (h : ∀ x ∈ cases.map Case.child ++ fallback.toList, x.Accounts P) (input : List Value) :
    (runSwitch signature c.policy condition cases fallback input).Accounts P := by
  unfold runSwitch
  simp only
  split
  · exact .of_error rfl (.unmatchedCondition _ _)
  · next branch hselect =>
    have hbranch := h branch (mem_of_select_eq_some hselect)
    exact (hbranch.resolveAndInvoke hc .empty ⟨input⟩).andThen fun _ => .of_ok rfl

/-! ## Leaves -/

/-- What is produced from a result adds no failure. -/
theorem accounts_produce {α : Type} {r : Run α} (h : r.Accounts P) (f : α → List Value) :
    (r.andThen fun a => .ofExcept (.ok (f a))).Accounts P :=
  h.andThen fun _ => .of_ok rfl

/-- A text generation fails with what its prompt is answered with. -/
theorem accounts_runLlm (hc : P c) (signature : Signature) (template : String)
    (input : List Value) : (runLlm signature c.client template input).Accounts P := by
  apply accounts_produce
  intro e he
  have hanswer : (c.client.generate (Template.render signature.input template input)).outcome =
      .error e := he
  refine .generated hc hanswer ?_
  rw [Run.calls, Run.events_closing, hanswer]
  exact List.mem_filter.2 ⟨List.mem_append_right _ (List.mem_singleton_self _), rfl⟩

/-- Whatever a tool fails with, the failure is named after a tool. -/
theorem exists_toolError (name : String) (e : Error) :
    ∃ tool text, toolError name e = .tool tool text := by
  unfold toolError
  split
  · exact ⟨_, _, rfl⟩
  · exact ⟨_, _, rfl⟩

/-- A tool call accounts for a missing tool, and for whatever the tool fails with. -/
theorem accounts_runTool (hc : P c) (signature : Signature) (name : String) (input : List Value) :
    (runTool signature c.tools name input).Accounts P := by
  unfold runTool
  split
  · next hnone => exact .of_error rfl (.toolNotFound hc hnone)
  · next tool _ =>
    apply accounts_produce
    intro e he
    generalize (tool.call (toolArgs input)).closing (.called name (toolArgs input)) = r at he ⊢
    cases hr : r.outcome with
    | ok p =>
      rw [Run.mapError, hr] at he
      cases he
    | error e' =>
      rw [Run.mapError, hr] at he
      cases he
      obtain ⟨tool, text, h⟩ := exists_toolError name e'
      rw [h]
      exact .tool tool text

/-- A request fails to be formed as a leaf does. -/
theorem exists_fault_of_httpRequest {id : ModuleId} {input : ValueSet} {e : Error}
    (h : httpRequest id input = .error e) : ∃ fault, e = .leaf fault := by
  unfold httpRequest at h
  split at h
  · next url _ =>
    simp only at h
    split at h
    · cases h
      exact ⟨_, rfl⟩
    · split at h
      · cases h
        exact ⟨_, rfl⟩
      · split at h
        · cases h
        · cases h
          exact ⟨_, rfl⟩
  · cases h
    exact ⟨_, rfl⟩

/-- A fetch fails with what its request is answered with. -/
theorem accounts_runHttp (hc : P c) (id : ModuleId) (signature : Signature) (input : List Value) :
    (runHttp id signature c.fetch input).Accounts P := by
  refine Run.Accounts.andThen ?_ fun request => accounts_produce ?_ _
  · intro e he
    obtain ⟨fault, rfl⟩ := exists_fault_of_httpRequest he
    exact .leaf fault
  · intro e he
    have hanswer : (c.fetch request).outcome = .error e := he
    refine .requested hc hanswer ?_
    rw [Run.calls, Run.events_closing, hanswer]
    exact List.mem_filter.2 ⟨List.mem_append_right _ (List.mem_singleton_self _), rfl⟩

/-- An extraction accounts for an input that it lacks and for a text that cannot be read. -/
theorem accounts_runExtract (id : ModuleId) (signature : Signature) (path : String)
    (input : List Value) : (runExtract id signature path input).Accounts P := by
  refine accounts_produce ?_ _
  intro e he
  have hinput : extractionInput id ⟨input⟩ = .error e := he
  unfold extractionInput at hinput
  split at hinput
  · unfold Payload.readJson at hinput
    split at hinput
    · cases hinput
    · cases hinput
      exact .json _
  · cases hinput
  · cases hinput
  · cases hinput
    exact .leaf _

/-! ## Modules -/

/-- A module accounts for its failures if its children and the module it refers to do. -/
theorem accounts_ofKindBy (hc : P c) (schedule : Schedule) (id : ModuleId) (signature : Signature)
    {kind : Kind Executable Executable} (hchildren : ∀ x ∈ kind.children, x.Accounts P)
    (htarget : ∀ x ∈ kind.target?, x.Accounts P) :
    (ofKindBy c schedule id signature kind).Accounts P := by
  intro input
  cases kind with
  | sequential steps =>
    refine (accounts_runSteps hc hchildren ⟨input⟩).andThen fun current => ?_
    intro e he
    obtain ⟨hpolicy, honly⟩ := strictOnly_of_gatherOutputs he
    exact .strict hc hpolicy honly
  | parallel branches => exact accounts_runParallelBy schedule hc id signature hchildren input
  | switch condition cases fallback =>
    exact accounts_runSwitch hc signature condition hchildren input
  | subWorkflow target => exact htarget target rfl input
  | llm template => exact accounts_runLlm hc signature template input
  | tool name => exact accounts_runTool hc signature name input
  | http => exact accounts_runHttp hc id signature input
  | jsonExtract path => exact accounts_runExtract id signature path input

end Executable

/-- In whatever way a module runs, every failure has an origin. -/
theorem Module.RunsAs.accounts {m : Module} {x : Executable} (h : m.RunsAs P x) : x.Accounts P := by
  refine RunsAs.induct (Q := fun _ y => y.Accounts P) ?_ h
  intro id signature kind c schedule kind' hc hrel
  obtain ⟨htarget, hchildren⟩ := hrel.forall_right (fun _ _ h => h.2) fun _ _ h => h.2
  exact Executable.accounts_ofKindBy hc schedule id signature hchildren htarget

end WorkflowEngine
