import WorkflowEngine.Proofs.Compilation.Dependencies
import WorkflowEngine.Proofs.Inlining.Expansion
import WorkflowEngine.Proofs.Runs.Limits
import WorkflowEngine.Proofs.Runs.Measurements
import WorkflowEngine.Proofs.Runs.Visits

/-!
# Which executions are counted

Inside a run modules execute other modules: a composite its children, and a reference the module it
refers to. A child is counted when it ends, by its class and with its status, and so is everything
that is executed below it. But a reference hands its input on and counts nothing itself: of it and
the module it refers to only the reference is counted, as a child, and not even that if it is the
module that is run.
-/

namespace WorkflowEngine

/-- The invocation that an event is. -/
def Event.invocation? : Event → Option Invocation
  | .invoked i => some i
  | _ => none

namespace Run

variable {α : Type}

/-- The invocations in a run. -/
def invocations (r : Run α) : List Invocation := r.events.filterMap Event.invocation?

/-- A run that does not end with a timeout has not been cut off. -/
theorem withinLimit_of_status_ne_timeout {r : Run α} {limit : Option Duration}
    (h : Status.ofOutcome (r.withinLimit limit).outcome ≠ .timeout) :
    r.withinLimit limit = r := by
  cases limit with
  | none => rfl
  | some limit =>
    have hwhole : r.withinLimit none = r.withinLimit (some limit) := by
      refine withinLimit_of_longer (fun hcut => h ?_) nofun
      exact (Status.ofOutcome_eq_timeout_iff _).2 ⟨limit, hcut⟩
    exact hwhole.symm

theorem mem_invocations_iff {r : Run α} {i : Invocation} :
    i ∈ r.invocations ↔ .invoked i ∈ r.events := by
  rw [invocations, List.mem_filterMap]
  constructor
  · rintro ⟨e, he, hi⟩
    cases e with
    | invoked j =>
      obtain rfl : j = i := Option.some.inj hi
      exact he
    | generated _ _ | called _ _ _ | requested _ _ => cases hi
  · intro h
    exact ⟨.invoked i, h, rfl⟩

end Run

/-! ## Totals of invocations -/

namespace Measurement

/-- The total of a class and a status is the number of the invocations of that class with that
status. -/
theorem total_invocations_ofLog (type : ModuleType) (status : Status) (log : EventLog) :
    total (.invocations type status) (ofLog log) =
      ((log.map Prod.snd).filterMap Event.invocation?).countP
        fun i => i.type = type ∧ i.status = status := by
  induction log with
  | nil => rfl
  | cons e rest ih =>
    obtain ⟨time, event⟩ := e
    have hcons : ofLog ((time, event) :: rest) = ofEvent event ++ ofLog rest := rfl
    rw [hcons, total_append, ih, List.map_cons]
    cases event with
    | invoked i =>
      have hfirst : ((.invoked i :: rest.map Prod.snd).filterMap Event.invocation?) =
          i :: (rest.map Prod.snd).filterMap Event.invocation? := rfl
      rw [hfirst, List.countP_cons]
      simp only [ofEvent, total_cons, total_nil, Series.invocations.injEq, reduceCtorEq, if_false,
        decide_eq_true_eq]
      split <;> omega
    | generated _ _ | called _ _ _ | requested _ _ =>
      exact Int.zero_add _

/-- A run counts its invocations by class and status, and no others. -/
theorem total_invocations_ofRun {α : Type} (type : ModuleType) (status : Status) (r : Run α) :
    total (.invocations type status) (ofRun r) =
      r.invocations.countP fun i => i.type = type ∧ i.status = status := by
  rw [total_ofRun, total_invocations_ofLog, if_neg nofun, if_neg nofun, Int.add_zero, Int.add_zero]
  rfl

end Measurement

/-! ## Errands -/

/-- A module that another one executes on an input. -/
structure Errand where
  /-- The module that is executed. -/
  child : Executable
  /-- What it is executed on. -/
  input : List Value
  /-- Whether the other one is a reference to it. -/
  referred : Bool

/-- A module that has been executed inside a run. -/
structure Executed where
  /-- The module. -/
  module : Module
  /-- How it has ended. -/
  status : Status
  /-- Whether it has been executed by a reference to it. -/
  referred : Bool

/-- To run a child that is visited is an errand. -/
def Visit.errand (v : Visit) : Errand := ⟨v.child, v.input, false⟩

/-- The execution of a module on an errand. -/
def Errand.executed (e : Errand) (m : Module) : Executed :=
  ⟨m, .ofOutcome (e.child.run e.input).outcome, e.referred⟩

/-- The class and the status under which an execution is counted, unless a reference has executed
the module. -/
def Executed.tally? (e : Executed) : Option (ModuleType × Status) :=
  if e.referred then none else some (e.module.type, e.status)

namespace Executable

/-- What a module executes when it runs on an input: a composite the children that it visits, a
reference the module it refers to, on the same input, and a leaf nothing. -/
def errands (policy : InputPolicy) (input : List Value) (kind : Kind Executable Executable) :
    List Errand :=
  match kind with
  | .subWorkflow target => [⟨target, input, true⟩]
  | kind => (visits policy input kind).map Visit.errand

section OfKindBy

variable {c : Context} (schedule : Schedule) (id : ModuleId) (signature : Signature)
  {kind : Kind Executable Executable} (input : List Value)

/-- A module that is no reference executes what it visits. -/
theorem errands_of_target?_eq_none (policy : InputPolicy) (h : kind.target? = none) :
    errands policy input kind = (visits policy input kind).map Visit.errand := by
  cases kind with
  | subWorkflow _ => cases h
  | sequential _ | parallel _ | switch _ _ _ | llm _ | tool _ | http | jsonExtract _ => rfl

/-- A module executes its children or the module it refers to. -/
theorem child_mem_of_mem_errands {policy : InputPolicy} {input : List Value} {e : Errand}
    (h : e ∈ errands policy input kind) : e.child ∈ kind.target?.toList ++ kind.children := by
  cases kind with
  | subWorkflow target =>
    cases List.mem_singleton.1 h
    exact List.mem_cons_self
  | sequential _ | parallel _ | switch _ _ _ | llm _ | tool _ | http | jsonExtract _ =>
    obtain ⟨v, hv, rfl⟩ := List.mem_map.1 h
    exact List.mem_append_right _ (child_mem_of_mem_visits hv)

/-- A run without invocation events has no invocations. -/
theorem invocations_eq_nil {α : Type} {r : Run α} (h : ∀ i, .invoked i ∉ r.events) :
    r.invocations = [] := by
  rw [List.eq_nil_iff_forall_not_mem]
  intro i hi
  exact h i (Run.mem_invocations_iff.1 hi)

/-- The invocations in a module that is no reference are those in its visits. -/
theorem perm_invocations_ofKindBy (hc : c.InvokesNothing) (hkind : kind.target? = none) :
    ((ofKindBy c schedule id signature kind).run input).invocations.Perm
      ((visits c.policy input kind).flatMap fun v => v.run.invocations) := by
  have hvisits : ∀ vs : List Visit, (vs.flatMap fun v => v.run.invocations) =
      (vs.flatMap fun v => v.run.events).filterMap Event.invocation? :=
    fun _ => (List.filterMap_flatMap ..).symm
  rw [hvisits]
  cases kind with
  | sequential steps =>
    exact .of_eq (congrArg _ (events_runSequential id signature c.policy steps input))
  | parallel branches =>
    exact (events_runParallelBy schedule id signature c.policy branches input).filterMap _
  | switch condition cases fallback =>
    exact .of_eq (congrArg _ (events_runSwitch signature c.policy condition cases fallback input))
  | subWorkflow _ => cases hkind
  | llm template =>
    exact .of_eq (invocations_eq_nil fun i hi => hc i (logs_of_mem_events_runLlm hi))
  | tool name =>
    exact .of_eq (invocations_eq_nil fun i hi => hc i (logs_of_mem_events_runTool hi))
  | http => exact .of_eq (invocations_eq_nil fun i hi => hc i (logs_of_mem_events_runHttp hi))
  | jsonExtract path => exact .of_eq (invocations_eq_nil fun _ => not_mem_events_runExtract)

/-- The visit of a child adds one invocation after those inside the child. -/
theorem invocations_run (v : Visit) :
    v.run.invocations = (v.child.run v.input).invocations ++
      [v.child.invocation v.mapping v.available v.input] := by
  rw [Run.invocations, Visit.events_run, List.filterMap_append]
  rfl

@[simp] theorem type_ofKindBy : (ofKindBy c schedule id signature kind).type = kind.type := by
  cases kind <;> rfl

end OfKindBy

end Executable

theorem Kind.Rel.type_eq {ρ σ α β : Type} {T : ρ → σ → Prop} {R : α → β → Prop} {k : Kind ρ α}
    {k' : Kind σ β} (h : k.Rel T R k') : k'.type = k.type := by
  cases h <;> rfl

namespace Module

variable {P : Context → Prop} {m : Module} {x : Executable} {input : List Value}
  {executed : List Executed}

/-- A way to run keeps the class of the module. -/
theorem RunsAs.type_eq (h : m.RunsAs P x) : x.type = m.type := by
  obtain ⟨id, signature, kind⟩ := m
  obtain ⟨c, schedule, kind', _, hrel, rfl⟩ := runsAs_mk_iff.1 h
  rw [Executable.type_ofKindBy, hrel.type_eq]
  rfl

/-- All that is executed inside a module that runs in a certain way on an input, each followed by
what has executed it. -/
inductive Performs (P : Context → Prop) :
    Module → Executable → List Value → List Executed → Prop where
  /-- What the module executes, each after what is executed inside it. -/
  | intro {id : ModuleId} {signature : Signature} {kind : Kind Module Module} {c : Context}
    {schedule : Schedule} {kind' : Kind Executable Executable} {input : List Value} (hc : P c)
    (hways : kind.Rel (RunsAs P) (RunsAs P) kind') (of : Errand → Module)
    (below : Errand → List Executed)
    (hof : ∀ e ∈ Executable.errands c.policy input kind',
      of e ∈ kind.target?.toList ++ kind.children ∧ (of e).RunsAs P e.child)
    (hbelow : ∀ e ∈ Executable.errands c.policy input kind',
      Performs P (of e) e.child e.input (below e)) :
    Performs P (.mk id signature kind) (Executable.ofKindBy c schedule id signature kind') input
      ((Executable.errands c.policy input kind').flatMap fun e => below e ++ [e.executed (of e)])

/-- What is executed by a module is one of its children or the module it refers to, in a way of its
own. -/
theorem exists_mem_of_mem_errands {Q : Module → Executable → Prop} {kind : Kind Module Module}
    {kind' : Kind Executable Executable} {policy : InputPolicy} {e : Errand}
    (hrel : kind.Rel Q Q kind') (he : e ∈ Executable.errands policy input kind') :
    ∃ n ∈ kind.target?.toList ++ kind.children, Q n e.child := by
  rcases List.mem_append.1 (Executable.child_mem_of_mem_errands he) with htarget | hchild
  · cases hrel with
    | subWorkflow h =>
      obtain rfl : e.child = _ := List.mem_singleton.1 htarget
      exact ⟨_, List.mem_cons_self, h⟩
    | sequential _ | parallel _ | switch _ _ _ | llm _ | tool _ | http | jsonExtract _ =>
      exact absurd htarget List.not_mem_nil
  · obtain ⟨n, hn, hway⟩ := exists_mem_of_forall₂ hrel.children hchild
    exact ⟨n, List.mem_append_right _ hn, hway⟩

/-- In whatever way a module runs, there is all that is executed inside it. -/
theorem RunsAs.exists_performs (h : m.RunsAs P x) (input : List Value) :
    ∃ executed, m.Performs P x input executed := by
  refine RunsAs.induct (Q := fun m x => ∀ input, ∃ executed, m.Performs P x input executed) ?_ h
    input
  intro id signature kind c schedule kind' hc hrel input
  have hways : kind.Rel (RunsAs P) (RunsAs P) kind' :=
    hrel.imp (fun _ _ h => h.1) fun _ _ h => h.1
  have herrand : ∀ e : Errand, ∃ (n : Module) (below : List Executed),
      e ∈ Executable.errands c.policy input kind' →
        (n ∈ kind.target?.toList ++ kind.children ∧ n.RunsAs P e.child) ∧
          n.Performs P e.child e.input below := by
    intro e
    by_cases he : e ∈ Executable.errands c.policy input kind'
    · obtain ⟨n, hn, hway, hperforms⟩ := exists_mem_of_mem_errands hrel he
      obtain ⟨below, hbelow⟩ := hperforms e.input
      exact ⟨n, below, fun _ => ⟨⟨hn, hway⟩, hbelow⟩⟩
    · exact ⟨default, [], fun h => absurd h he⟩
  choose of below h using herrand
  exact ⟨_, .intro hc hways of below (fun e he => (h e he).1) fun e he => (h e he).2⟩

/-- A child is counted by its class and with its status, and what a reference executes is not: so
are all executions inside a module. -/
theorem Performs.perm (h : m.Performs P x input executed) (hP : ∀ c, P c → c.InvokesNothing) :
    ((x.run input).invocations.map fun i => (i.type, i.status)).Perm
      (executed.filterMap Executed.tally?) := by
  induction h with
  | @intro id signature kind c schedule kind' input hc hways of below hof hbelow ih =>
    rw [List.filterMap_flatMap]
    cases htarget : kind'.target? with
    | some y =>
      obtain rfl := Kind.eq_subWorkflow_of_target? htarget
      have herrands : Executable.errands c.policy input (.subWorkflow y) = [⟨y, input, true⟩] := rfl
      have hown : Executed.tally? (Errand.executed ⟨y, input, true⟩ (of ⟨y, input, true⟩)) = none :=
        rfl
      rw [herrands, List.flatMap_singleton, List.filterMap_append, List.filterMap_cons_none hown,
        List.filterMap_nil, List.append_nil]
      exact ih ⟨y, input, true⟩ (List.mem_singleton_self _)
    | none =>
      rw [Executable.errands_of_target?_eq_none input c.policy htarget] at hof ih ⊢
      have hvisits := (Executable.perm_invocations_ofKindBy schedule id signature input (hP c hc)
        htarget).map fun i => (i.type, i.status)
      rw [List.map_flatMap] at hvisits
      rw [List.flatMap_map]
      refine hvisits.trans (List.Perm.flatMap_left _ fun v hv => ?_)
      -- Below a child everything is counted alike, and the child is counted as it ends.
      have he : v.errand ∈ _ := List.mem_map_of_mem hv
      have htype : v.child.type = (of v.errand).type := (hof _ he).2.type_eq
      rw [Executable.invocations_run, List.map_append, List.filterMap_append]
      refine (ih _ he).append (.of_eq ?_)
      simp only [List.map_cons, List.map_nil, Executable.invocation, htype]
      rfl

/-! ## What is counted -/

open Measurement

/-- What is counted of a class and with a status is executed, and not by a reference. -/
theorem Performs.total_eq (h : m.Performs P x input executed) (hP : ∀ c, P c → c.InvokesNothing)
    (type : ModuleType) (status : Status) :
    total (.invocations type status) (ofRun (x.run input)) =
      executed.countP fun e => e.referred = false ∧ e.module.type = type ∧ e.status = status := by
  have hcount := (h.perm hP).countP_eq fun t => t.1 = type ∧ t.2 = status
  rw [List.countP_map, List.countP_filterMap] at hcount
  rw [total_invocations_ofRun]
  refine congrArg Nat.cast (hcount.trans (List.countP_congr fun e _ => ?_))
  cases hreferred : e.referred <;> simp [Executed.tally?, hreferred]

/-- If as much is counted as is executed, of every class and with every status, nothing has been
executed by a reference. -/
theorem referred_eq_false_of_countP_eq
    (h : ∀ type status, (executed.countP fun e =>
        e.referred = false ∧ e.module.type = type ∧ e.status = status) =
      executed.countP fun e => e.module.type = type ∧ e.status = status)
    {e : Executed} (he : e ∈ executed) : e.referred = false := by
  let alike : List Executed :=
    executed.filter fun d => d.module.type = e.module.type ∧ d.status = e.status
  have hcounted : (alike.countP fun d => d.referred = false) = alike.length := by
    rw [List.countP_filter, ← List.countP_eq_length_filter, ← h]
    simp only [Bool.decide_and]
  have hmem : e ∈ alike := List.mem_filter.2 ⟨he, decide_eq_true ⟨rfl, rfl⟩⟩
  exact of_decide_eq_true (List.countP_eq_length.1 hcounted e hmem)

/-- What is counted inside a run that does not end with a timeout, in whatever order branches end
and whatever each call of a capability is answered with. No capability invokes children by itself.

1. All that is executed inside the run can be listed.
2. Whatever is executed by another module than a reference is counted once, under its own class and
   the status of its result, and nothing else is counted.
3. So all that is executed is counted in this way exactly if no reference is executed, the module
   that is run included. -/
theorem total_invocations_withinLimit (hx : m.RunsAs Context.InvokesNothing x)
    {limit : Option Duration}
    (hend : Status.ofOutcome ((x.run input).withinLimit limit).outcome ≠ .timeout) :
    let measured := ofRun ((x.run input).withinLimit limit)
    (∃ executed, m.Performs Context.InvokesNothing x input executed) ∧
    ∀ executed, m.Performs Context.InvokesNothing x input executed →
      (∀ type status, total (.invocations type status) measured = executed.countP
        fun e => e.referred = false ∧ e.module.type = type ∧ e.status = status) ∧
      ((∀ type status, total (.invocations type status) measured =
          executed.countP fun e => e.module.type = type ∧ e.status = status) ↔
        ∀ e ∈ executed, e.referred = false) := by
  intro measured
  have hmeasured : measured = ofRun (x.run input) :=
    congrArg ofRun (Run.withinLimit_of_status_ne_timeout hend)
  refine ⟨hx.exists_performs input, fun executed h => ?_⟩
  rw [hmeasured]
  have hcounted := h.total_eq fun _ hc => hc
  refine ⟨hcounted, ?_, ?_⟩
  · intro hall e he
    refine referred_eq_false_of_countP_eq (fun type status => ?_) he
    exact Int.natCast_inj.1 ((hcounted type status).symm.trans (hall type status))
  · intro hnone type status
    rw [hcounted]
    refine congrArg Nat.cast (List.countP_congr fun e he => ?_)
    simp [hnone e he]

open Resolver

/-- Inside a sequence that calls a workflow the workflow is executed by the call, and the call by
the sequence. -/
theorem performs_idleSteps :
    idleSteps.Performs Context.InvokesNothing (idleSteps.executable pinging) []
      [⟨idle, .success, true⟩, ⟨idleCall, .success, false⟩] := by
  have hc : Context.InvokesNothing pinging := invokesNothing_pinging .lenient
  have hway : ∀ n : Module, n.RunsAs Context.InvokesNothing (n.executable pinging) :=
    runsAs_executable hc
  have hidle : idle.Performs Context.InvokesNothing (.ofKindBy pinging .byTime "child" .empty
      (.sequential [])) [] [] :=
    .intro hc (.sequential .nil) (fun _ => idle) (fun _ => []) nofun nofun
  have hcall : idleCall.Performs Context.InvokesNothing (.ofKindBy pinging .byTime "call_child"
      idleCall.signature (.subWorkflow (idle.executable pinging))) [] [⟨idle, .success, true⟩] := by
    refine .intro hc (.subWorkflow (hway idle)) (fun _ => idle) (fun _ => []) ?_ ?_
    · intro e he
      cases List.mem_singleton.1 he
      exact ⟨List.mem_cons_self, hway idle⟩
    · intro e he
      cases List.mem_singleton.1 he
      exact hidle
  show idleSteps.Performs Context.InvokesNothing (.ofKindBy pinging .byTime "main" .empty
    (.sequential [⟨idleCall.executable pinging, .empty⟩])) [] _
  refine .intro hc (.sequential (.cons ⟨hway idleCall, rfl⟩ .nil)) (fun _ => idleCall)
    (fun _ => [⟨idle, .success, true⟩]) ?_ ?_
  · intro e he
    cases List.mem_singleton.1 he
    exact ⟨List.mem_cons_self, hway idleCall⟩
  · intro e he
    cases List.mem_singleton.1 he
    exact hcall

/-- The run of the sequence ends with a result. Its workflow is executed inside it, and no sequence
is counted. -/
theorem idleSteps_uncounted :
    undeclaredCall.compileMain "main" = .ok ⟨[idle, idleSteps], by decide⟩ ∧
      let r := ((idleSteps.executable pinging).run []).withinLimit none
      Status.ofOutcome r.outcome ≠ .timeout ∧
        ∃ executed, idleSteps.Performs Context.InvokesNothing (idleSteps.executable pinging) []
            executed ∧
          ¬ ∀ type status, total (.invocations type status) (ofRun r) =
            executed.countP fun e => e.module.type = type ∧ e.status = status := by
  refine ⟨compileMain_undeclaredCall, nofun, _, performs_idleSteps, ?_⟩
  intro h
  have hsequences := h .sequential .success
  cases hsequences

/-- Of what is executed inside the sequence the call is counted, and the workflow is not. -/
theorem total_invocations_idleSteps :
    let r := ((idleSteps.executable pinging).run []).withinLimit none
    idleSteps.RunsAs Context.InvokesNothing (idleSteps.executable pinging) ∧
      Status.ofOutcome r.outcome ≠ .timeout ∧
      total (.invocations .subWorkflow .success) (ofRun r) = 1 ∧
      total (.invocations .sequential .success) (ofRun r) = 0 := by
  intro r
  have hway : idleSteps.RunsAs Context.InvokesNothing (idleSteps.executable pinging) :=
    runsAs_executable (P := Context.InvokesNothing) (invokesNothing_pinging .lenient) idleSteps
  have hend : Status.ofOutcome r.outcome ≠ .timeout := nofun
  obtain ⟨-, hcounted⟩ := total_invocations_withinLimit hway hend
  obtain ⟨htotal, -⟩ := hcounted _ performs_idleSteps
  exact ⟨hway, hend, htotal .subWorkflow .success, htotal .sequential .success⟩

end Module

end WorkflowEngine
