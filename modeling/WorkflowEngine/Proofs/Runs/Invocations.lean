import WorkflowEngine.Proofs.Runs.FanOuts
import WorkflowEngine.Proofs.Runs.Inputs

/-!
# What children are given

A composite turns to its children one at a time or all at once, and at that moment it can draw on
certain values: a sequence on its input and on what the steps before have given, a fan-out and a
switch on their input alone. From these the inputs of the child are resolved. So every list that a
child is given consists of declared inputs in their order, none of them twice, each with what is
bound to its source.
-/

namespace WorkflowEngine

namespace Kind

variable {ρ σ α β : Type}

/-- The children of a kind of module, each with what its inputs are mapped to. Only the steps of a
sequence map any. -/
def uses : Kind ρ α → List (Step α)
  | .sequential steps => steps
  | kind => kind.children.map fun child => ⟨child, .empty⟩

theorem child_mem_of_mem_uses {k : Kind ρ α} {s : Step α} (h : s ∈ k.uses) :
    s.child ∈ k.children := by
  cases k with
  | sequential steps => exact List.mem_map_of_mem h
  | parallel _ | switch _ _ _ | subWorkflow _ | llm _ | tool _ | http | jsonExtract _ =>
    obtain ⟨child, hchild, rfl⟩ := List.mem_map.1 h
    exact hchild

/-- Kinds of one shape use their children place by place. -/
theorem Rel.uses {T : ρ → σ → Prop} {R : α → β → Prop} {k : Kind ρ α} {k' : Kind σ β}
    (h : k.Rel T R k') : List.Forall₂ (Step.Rel R) k.uses k'.uses := by
  have hmapped : List.Forall₂ (Step.Rel R) (k.children.map fun child => ⟨child, .empty⟩)
      (k'.children.map fun child => ⟨child, .empty⟩) := by
    rw [List.forall₂_map_left_iff, List.forall₂_map_right_iff]
    exact h.children.imp fun _ _ hchild => ⟨hchild, rfl⟩
  cases h with
  | sequential h => exact h
  | parallel _ | switch _ _ _ | subWorkflow _ | llm _ | tool _ | http | jsonExtract _ =>
    exact hmapped

end Kind

/-- An event that a capability of the surroundings puts into the log by itself. -/
inductive Context.Logs (c : Context) (e : Event) : Prop where
  /-- The client does when it is given a prompt. -/
  | client {prompt : String} (h : e ∈ (c.client.generate prompt).events)
  /-- A tool does when it is called. -/
  | tool {name : String} {tool : Tool} (hfind : c.tools.find? name = some tool) {args : ToolArgs}
    (h : e ∈ (tool.call args).events)
  /-- A fetch does. -/
  | fetch {request : Http.Request} (h : e ∈ (c.fetch request).events)

/-- No capability of the surroundings invokes children. -/
def Context.InvokesNothing (c : Context) : Prop := ∀ i, ¬ c.Logs (.invoked i)

namespace Executable

variable {policy : InputPolicy} {input : List Value} {i : Invocation}

/-- What the use of a child leaves in the log. -/
def invocation (child : Executable) (mapping : Dictionary String) (available : ValueSet)
    (input : List Value) : Invocation where
  child := child.id
  type := child.type
  declared := child.signature.input
  mapping := mapping
  available := available
  input := input
  status := .ofOutcome (child.run input).outcome

/-- What happens when a child is run happens in the child or is its invocation. -/
theorem events_invoke (child : Executable) (mapping : Dictionary String) (available : ValueSet)
    (input : List Value) :
    (child.invoke mapping available input).events =
      (child.run input).events ++ [.invoked (child.invocation mapping available input)] :=
  Run.events_closing _ _

/-- What comes of the use of a child: its inputs are resolved, and then something happens in it, or
it is what has been invoked. -/
def ComesOf (policy : InputPolicy) (s : Step Executable) (available : ValueSet) (e : Event) :
    Prop :=
  ∃ taken, resolveInputs s.child.id s.mapping policy available s.child.signature.input = .ok taken ∧
    (e ∈ (s.child.run taken).events ∨
      e = .invoked (s.child.invocation s.mapping available taken))

/-- What happens when a child is invoked on its resolved inputs comes of its use. -/
theorem comesOf_of_mem_events_invoke {s : Step Executable} {available : ValueSet}
    {taken : List Value} {e : Event}
    (htaken : resolveInputs s.child.id s.mapping policy available s.child.signature.input =
      .ok taken)
    (h : e ∈ (s.child.invoke s.mapping available taken).events) : ComesOf policy s available e := by
  rw [events_invoke, List.mem_append, List.mem_singleton] at h
  exact ⟨taken, htaken, h⟩

/-- What happens when a child has its inputs resolved and is invoked comes of its use. -/
theorem comesOf_of_mem_events {s : Step Executable} {available : ValueSet} {e : Event}
    (h : e ∈ (s.child.resolveAndInvoke policy s.mapping available).events) :
    ComesOf policy s available e := by
  rcases Run.mem_events_andThen h with hresolve | ⟨taken, htaken, hinvoke⟩
  · exact absurd hresolve List.not_mem_nil
  · exact comesOf_of_mem_events_invoke htaken hinvoke

/-! ## Turns -/

/-- The turns of a composite that runs on an input: the child it turns to, and what it can draw on
when it does. -/
inductive Turn (policy : InputPolicy) :
    Kind Executable Executable → List Value → Step Executable → ValueSet → Prop where
  /-- A sequence turns to a step when the steps before have run, and can draw on its input and on
  what these have given. -/
  | step {before rest : List (Step Executable)} {s : Step Executable} {input : List Value}
    {available : ValueSet} (h : (runSteps policy before ⟨input⟩).outcome = .ok available) :
    Turn policy (.sequential (before ++ s :: rest)) input s available
  /-- A fan-out turns to every branch. -/
  | branch {branches : List Executable} {b : Executable} {input : List Value} (h : b ∈ branches) :
    Turn policy (.parallel branches) input ⟨b, .empty⟩ ⟨input⟩
  /-- A switch turns to the branch that it selects. -/
  | selected {condition : String} {cases : List (Case Executable)} {fallback : Option Executable}
    {b : Executable} {input : List Value}
    (h : select cases fallback (conditionIn condition input) = some b) :
    Turn policy (.switch condition cases fallback) input ⟨b, .empty⟩ ⟨input⟩

theorem Turn.mem_uses {kind : Kind Executable Executable} {s : Step Executable}
    {available : ValueSet} (h : Turn policy kind input s available) : s ∈ kind.uses := by
  cases h with
  | step _ => exact List.mem_append_right _ List.mem_cons_self
  | branch h => exact List.mem_map_of_mem h
  | selected h => exact List.mem_map_of_mem (mem_of_select_eq_some h)

/-- What happens in a sequence comes of one of its steps, which the steps before have led up to. -/
theorem exists_of_mem_events_runSteps {steps : List (Step Executable)} {current : ValueSet}
    {e : Event} (h : e ∈ (runSteps policy steps current).events) :
    ∃ before s rest available, steps = before ++ s :: rest ∧
      (runSteps policy before current).outcome = .ok available ∧ ComesOf policy s available e := by
  induction steps generalizing current with
  | nil => exact absurd h List.not_mem_nil
  | cons s rest ih =>
    rcases Run.mem_events_andThen h with hfirst | ⟨outputs, houtputs, hrest⟩
    · exact ⟨[], s, rest, current, rfl, rfl, comesOf_of_mem_events hfirst⟩
    · obtain ⟨before, s', rest', available, rfl, havailable, hcomes⟩ := ih hrest
      have hbefore : (runSteps policy (s :: before) current).outcome = .ok available :=
        (Run.andThen_of_ok _ houtputs).1.trans havailable
      exact ⟨s :: before, s', rest', available, rfl, hbefore, hcomes⟩

/-- What happens in a fan-out comes of one of its branches, whatever the schedule. -/
theorem exists_of_mem_events_runParallelBy {schedule : Schedule} {id : ModuleId}
    {signature : Signature} {branches : List Executable} {e : Event}
    (h : e ∈ (runParallelBy schedule id signature policy branches input).events) :
    ∃ b ∈ branches, ComesOf policy ⟨b, .empty⟩ ⟨input⟩ e := by
  cases hready : resolveBranches policy ⟨input⟩ branches with
  | error _ =>
    rw [(runParallelBy_of_error schedule id signature hready).2] at h
    exact absurd h List.not_mem_nil
  | ok ready =>
    rw [(runParallelBy_of_ready schedule id signature hready).2.mem_iff, List.mem_flatMap] at h
    obtain ⟨r, hr, he⟩ := h
    obtain ⟨⟨b, taken⟩, hb, rfl⟩ := List.mem_map.1 hr
    obtain ⟨_, hmem, rfl, htaken⟩ :=
      exists_mem_of_forall₂ (forall₂_of_resolveBranches_eq_ok hready) hb
    exact ⟨b, hmem, comesOf_of_mem_events_invoke (s := ⟨b, .empty⟩) htaken he⟩

/-- What happens in a switch comes of the branch that it selects. -/
theorem exists_of_mem_events_runSwitch {signature : Signature} {condition : String}
    {cases : List (Case Executable)} {fallback : Option Executable} {e : Event}
    (h : e ∈ (runSwitch signature policy condition cases fallback input).events) :
    ∃ b, select cases fallback (conditionIn condition input) = some b ∧
      ComesOf policy ⟨b, .empty⟩ ⟨input⟩ e := by
  unfold runSwitch at h
  simp only at h
  split at h
  · exact absurd h List.not_mem_nil
  · next b hselect =>
    rcases Run.mem_events_andThen h with hbranch | ⟨_, _, hafter⟩
    · exact ⟨b, hselect, comesOf_of_mem_events (s := ⟨b, .empty⟩) hbranch⟩
    · exact absurd hafter List.not_mem_nil

/-! ## Leaves -/

variable {c : Context}

/-- An invocation in the log of a call of a capability has been put there by the capability. -/
theorem mem_events_of_closing {α : Type} {r : Run α} {event : Except Error α → Event}
    (hcall : (event r.outcome).isCall = true) (h : .invoked i ∈ (r.closing event).events) :
    .invoked i ∈ r.events := by
  rw [Run.events_closing, List.mem_append, List.mem_singleton] at h
  rcases h with h | h
  · exact h
  · rw [← h] at hcall
    cases hcall

theorem logs_of_mem_events_runLlm {signature : Signature} {template : String}
    (h : .invoked i ∈ (runLlm signature c.client template input).events) :
    c.Logs (.invoked i) := by
  rcases Run.mem_events_andThen h with hcall | ⟨_, _, hafter⟩
  · exact .client (mem_events_of_closing rfl hcall)
  · exact absurd hafter List.not_mem_nil

theorem logs_of_mem_events_runTool {signature : Signature} {name : String}
    (h : .invoked i ∈ (runTool signature c.tools name input).events) : c.Logs (.invoked i) := by
  unfold runTool at h
  split at h
  · exact absurd h List.not_mem_nil
  · next tool hfind =>
    rcases Run.mem_events_andThen h with hcall | ⟨_, _, hafter⟩
    · have hevents : .invoked i ∈ ((tool.call (toolArgs input)).closing
          (.called name (toolArgs input))).events := hcall
      exact .tool hfind (mem_events_of_closing rfl hevents)
    · exact absurd hafter List.not_mem_nil

/-- A request logs no invocation that the fetch does not. -/
theorem logs_of_mem_events_runHttp {id : ModuleId} {signature : Signature}
    (h : .invoked i ∈ (runHttp id signature c.fetch input).events) : c.Logs (.invoked i) := by
  rcases Run.mem_events_andThen h with hrequest | ⟨request, _, h⟩
  · exact absurd hrequest List.not_mem_nil
  · rcases Run.mem_events_andThen h with hcall | ⟨_, _, hafter⟩
    · exact .fetch (mem_events_of_closing rfl hcall)
    · exact absurd hafter List.not_mem_nil

theorem not_mem_events_runExtract {id : ModuleId} {signature : Signature} {path : String}
    {e : Event} : e ∉ (runExtract id signature path input).events := by
  intro h
  rcases Run.mem_events_andThen h with h | ⟨_, _, h⟩
  · exact absurd h List.not_mem_nil
  · exact absurd h List.not_mem_nil

/-- An invocation in the log of a module comes of one of its turns or of what it refers to, unless a
capability has put it there. -/
theorem exists_of_invoked_mem_events {schedule : Schedule} {id : ModuleId} {signature : Signature}
    {kind : Kind Executable Executable}
    (h : .invoked i ∈ ((ofKindBy c schedule id signature kind).run input).events) :
    c.Logs (.invoked i) ∨
      (∃ s available, Turn c.policy kind input s available ∧
        ComesOf c.policy s available (.invoked i)) ∨
      ∃ y, kind = .subWorkflow y ∧ .invoked i ∈ (y.run input).events := by
  cases kind with
  | sequential steps =>
    rcases Run.mem_events_andThen h with hsteps | ⟨_, _, hafter⟩
    · obtain ⟨before, s, rest, available, rfl, hbefore, hcomes⟩ :=
        exists_of_mem_events_runSteps hsteps
      exact .inr (.inl ⟨s, available, .step hbefore, hcomes⟩)
    · exact absurd hafter List.not_mem_nil
  | parallel branches =>
    obtain ⟨b, hb, hcomes⟩ := exists_of_mem_events_runParallelBy h
    exact .inr (.inl ⟨_, _, .branch hb, hcomes⟩)
  | switch condition cases fallback =>
    obtain ⟨b, hselect, hcomes⟩ := exists_of_mem_events_runSwitch h
    exact .inr (.inl ⟨_, _, .selected hselect, hcomes⟩)
  | subWorkflow y => exact .inr (.inr ⟨y, rfl, h⟩)
  | llm template => exact .inl (logs_of_mem_events_runLlm h)
  | tool name => exact .inl (logs_of_mem_events_runTool h)
  | http => exact .inl (logs_of_mem_events_runHttp h)
  | jsonExtract path => exact absurd h not_mem_events_runExtract

end Executable

namespace Module

variable {P : Context → Prop}

/-- A module that runs in a certain way on an input turns to a child, which runs in a way of its
own, and the inputs of the child are resolved from what the module can draw on then. -/
inductive TurnsTo (P : Context → Prop) : Module → Executable → List Value → Step Module →
    Step Executable → ValueSet → List Value → Prop where
  /-- The kind of the module, with the ways in which the children run, has the turn. -/
  | intro {id : ModuleId} {signature : Signature} {kind : Kind Module Module} {c : Context}
    {schedule : Schedule} {kind' : Kind Executable Executable} {input taken : List Value}
    {s : Step Module} {s' : Step Executable} {available : ValueSet} (hc : P c)
    (hways : kind.Rel (RunsAs P) (RunsAs P) kind') (hs : s ∈ kind.uses)
    (hway : Step.Rel (RunsAs P) s s')
    (hturn : Executable.Turn c.policy kind' input s' available)
    (htaken : resolveInputs s'.child.id s'.mapping c.policy available s'.child.signature.input =
      .ok taken) :
    TurnsTo P (.mk id signature kind) (Executable.ofKindBy c schedule id signature kind') input s s'
      available taken

/-- The invocations that a module makes when it runs in a certain way on an input. -/
inductive Makes (P : Context → Prop) :
    Module → Executable → List Value → Step Module → Invocation → Prop where
  /-- A composite invokes the children it turns to, on the inputs resolved for them. -/
  | own {m : Module} {x : Executable} {input taken : List Value} {s : Step Module}
    {s' : Step Executable} {available : ValueSet}
    (hturn : TurnsTo P m x input s s' available taken) :
    Makes P m x input s (s'.child.invocation s'.mapping available taken)
  /-- What a child makes of the inputs resolved for it is made by the composite. -/
  | inside {m : Module} {x : Executable} {input taken : List Value} {s t : Step Module}
    {s' : Step Executable} {available : ValueSet} {i : Invocation}
    (hturn : TurnsTo P m x input s s' available taken) (h : Makes P s.child s'.child taken t i) :
    Makes P m x input t i
  /-- What a module makes that is referred to is made by the reference. -/
  | call {id : ModuleId} {signature : Signature} {callee : Module} {c : Context}
    {schedule : Schedule} {y : Executable} {input : List Value} {s : Step Module} {i : Invocation}
    (h : Makes P callee y input s i) :
    Makes P (.mk id signature (.subWorkflow callee))
      (Executable.ofKindBy c schedule id signature (.subWorkflow y)) input s i

/-- The child of a turn runs in a way of a child of the module. -/
theorem exists_use_of_turn {Q : Module → Executable → Prop} {kind : Kind Module Module}
    {kind' : Kind Executable Executable} {policy : InputPolicy} {input : List Value}
    {s : Step Executable} {available : ValueSet}
    (hrel : Kind.Rel (fun m y => m.RunsAs P y ∧ Q m y) (fun m y => m.RunsAs P y ∧ Q m y) kind kind')
    (hturn : Executable.Turn policy kind' input s available) :
    kind.Rel (RunsAs P) (RunsAs P) kind' ∧
      ∃ u ∈ kind.uses, Step.Rel (RunsAs P) u s ∧ Q u.child s.child := by
  obtain ⟨u, hu, hstep⟩ := exists_mem_of_forall₂ hrel.uses hturn.mem_uses
  refine ⟨hrel.imp (fun _ _ h => h.1) fun _ _ h => h.1, u, hu, ?_, hstep.child.2⟩
  exact ⟨hstep.child.1, hstep.mapping⟩

/-- In whatever way a module runs, it makes the invocations in its log, unless a capability has put
them there. -/
theorem RunsAs.exists_makes {m : Module} {x : Executable} (h : m.RunsAs P x) {input : List Value}
    {i : Invocation} (hi : .invoked i ∈ (x.run input).events) :
    (∃ c, P c ∧ c.Logs (.invoked i)) ∨ ∃ s, m.Makes P x input s i := by
  refine RunsAs.induct (Q := fun m x => ∀ input, .invoked i ∈ (x.run input).events →
    (∃ c, P c ∧ c.Logs (.invoked i)) ∨ ∃ s, m.Makes P x input s i) ?_ h input hi
  intro id signature kind c schedule kind' hc hrel input hi
  rcases Executable.exists_of_invoked_mem_events hi with
    hlogs | ⟨s', available, hturn, taken, htaken, hcomes⟩ | ⟨y, rfl, hy⟩
  · exact .inl ⟨c, hc, hlogs⟩
  · obtain ⟨hways, s, hs, hway, hchild⟩ := exists_use_of_turn hrel hturn
    have hturns : TurnsTo P (.mk id signature kind)
        (Executable.ofKindBy c schedule id signature kind') input s s' available taken :=
      .intro hc hways hs hway hturn htaken
    rcases hcomes with hbelow | hown
    · exact (hchild taken hbelow).imp_right fun ⟨t, ht⟩ => ⟨t, .inside hturns ht⟩
    · cases hown
      exact .inr ⟨s, .own hturns⟩
  · cases hrel with
    | subWorkflow hcallee =>
      exact (hcallee.2 input hy).imp_right fun ⟨s, hs⟩ => ⟨s, .call hs⟩

end Module

/-- What an invocation under a policy has to do with the child that is invoked and with what its
inputs are mapped to. -/
structure Invocation.Serves (policy : InputPolicy) (i : Invocation) (u : Step Module) : Prop where
  /-- The child is the one that is invoked. -/
  child : i.child = u.child.id
  /-- The invocation has the inputs that the child declares. -/
  declared : i.declared = u.child.signature.input
  /-- It has what the inputs of the child are mapped to. -/
  mapping : i.mapping = u.mapping
  /-- The child is given some of the inputs that it declares, in their order and as declared. -/
  sublist : (i.input.map Value.spec).Sublist u.child.signature.input
  /-- It is given no name twice. -/
  nodup : (i.input.map Value.name).Nodup
  /-- An input that is mapped has the content first bound to the name that it is mapped to. -/
  mapped : ∀ v ∈ i.input, ∀ source, u.mapping.get? v.name = some source →
    (i.available.get? source).map Value.payload = some v.payload
  /-- Every other input has the content first bound to its own name. -/
  unmapped : ∀ v ∈ i.input, u.mapping.get? v.name = none →
    (i.available.get? v.name).map Value.payload = some v.payload
  /-- An input is absent exactly if nothing is bound to the name that it is mapped to, or to its own
  name if it is not mapped. -/
  absent : ∀ spec ∈ u.child.signature.input, (spec ∉ i.input.map Value.spec ↔
    i.available.get? (sourceName u.mapping spec) = none)
  /-- Under the strict policy an input that is absent is optional. -/
  optional : policy = .strict → ∀ spec ∈ u.child.signature.input,
    spec ∉ i.input.map Value.spec → spec.optional = true

namespace Module

variable {P : Context → Prop} {policy : InputPolicy} {r : Resolver} {m : Module} {x : Executable}
  {input : List Value} {u : Step Module} {i : Invocation}

/-- What has been resolved for a compiled child serves it. -/
theorem serves_of_resolveInputs {child : Executable} {mapping : Dictionary String}
    {available : ValueSet} {taken : List Value} (hu : u.child.Compiled r)
    (hway : Step.Rel (RunsAs P) u ⟨child, mapping⟩)
    (h : resolveInputs child.id mapping policy available child.signature.input = .ok taken) :
    (child.invocation mapping available taken).Serves policy u := by
  obtain ⟨hchild, hmapping⟩ := hway
  have hsignature : child.signature = u.child.signature := hchild.signature_eq
  simp only at hmapping
  subst hmapping
  rw [hsignature] at h
  obtain ⟨hbound, rfl⟩ := resolveInputs_eq_ok_iff.1 h
  have hsublist := map_spec_resolved_sublist u.mapping available u.child.signature.input
  have hnames := (hsublist.map ValueSpec.name).nodup hu.nodup_sides.1
  rw [List.map_map] at hnames
  have habsent : ∀ spec ∈ u.child.signature.input,
      (spec ∉ (resolved u.mapping available u.child.signature.input).map Value.spec ↔
        available.get? (sourceName u.mapping spec) = none) :=
    fun spec hspec => notMem_map_spec_resolved_iff hspec
  refine ⟨hchild.id_eq, congrArg Signature.input hsignature, rfl, hsublist, hnames, ?_, ?_, habsent,
    ?_⟩
  · intro v hv source hsource
    have hpayload := payload_of_mem_resolved hv
    rwa [hsource] at hpayload
  · intro v hv hsource
    have hpayload := payload_of_mem_resolved hv
    rwa [hsource] at hpayload
  · intro hstrict spec hspec hmissing
    have hnone := (habsent spec hspec).1 hmissing
    by_contra hrequired
    exact hbound hstrict spec hspec (Bool.eq_false_iff.2 hrequired) hnone

/-- Every invocation that a compiled module makes serves the child that is invoked. -/
theorem Makes.serves (h : m.Makes P x input u i) (hP : ∀ c, P c → c.policy = policy)
    (hm : m.Compiled r) : i.Serves policy u := by
  induction h with
  | own hturn =>
    cases hturn with
    | intro hc _ hs hway _ htaken =>
      rw [hP _ hc] at htaken
      exact serves_of_resolveInputs (hm.child _ (Kind.child_mem_of_mem_uses hs)) hway htaken
  | inside hturn _ ih =>
    cases hturn with
    | intro _ _ hs _ _ _ => exact ih (hm.child _ (Kind.child_mem_of_mem_uses hs))
  | call _ ih => exact ih hm.callee.1

/-- What the children inside a compiled module are given, in whatever order branches end, whatever
each call of a capability is answered with, and however long the run may take: for each invocation
there is a composite inside the module, at whatever depth, that has made it when it turned to the
child, and the invocation serves that child. No capability of the surroundings invokes children by
itself. -/
theorem invocation_serves {cache : CompileCache} (hcache : cache.Sound r) {depth : Nat}
    {s : ModuleSpec} (hm : (s.compileWith (r.compileAt depth) cache).1 = .ok m)
    (hx : m.RunsAs (fun c => c.policy = policy ∧ c.InvokesNothing) x) {limit : Option Duration}
    (hi : .invoked i ∈ ((x.run input).withinLimit limit).events) :
    ∃ u, m.Makes (fun c => c.policy = policy ∧ c.InvokesNothing) x input u i ∧
      i.Serves policy u := by
  have hcompiled : m.Compiled r := ⟨s, Resolver.yields_of_compileWith_eq_ok hcache hm⟩
  rcases hx.exists_makes (Run.mem_events_of_withinLimit hi) with ⟨c, hc, hlogs⟩ | ⟨u, hu⟩
  · exact absurd hlogs (hc.2 i)
  · exact ⟨u, hu, hu.serves (fun _ hc => hc.1) hcompiled⟩

/-- Surroundings with one tool that gives a number at once invoke nothing. -/
theorem invokesNothing_pinging (policy : InputPolicy) :
    Context.InvokesNothing { pinging with policy := policy } := by
  intro i h
  cases h with
  | client h => exact absurd h List.not_mem_nil
  | @tool name tool hfind args h =>
    obtain ⟨htool, -⟩ := Ascending.find?_eq_some_iff.1 hfind
    obtain rfl : tool = .ofFunction "ping" fun _ => .ok (.integer 1) := List.mem_singleton.1 htool
    exact absurd h List.not_mem_nil
  | fetch h => exact absurd h List.not_mem_nil

/-- The second step of a sequence takes its input `x` from what the first has given, and goes
without `y`, which is mapped to a name that nothing is bound to, although something is bound to `y`
itself. -/
theorem invocation_serves_mapped :
    let x : ValueSpec := .required "x" .any
    let y : ValueSpec := ⟨"y", .any, true⟩
    let given : ValueSpec := .required "given" .integer
    let mapping : Dictionary String := .ofList [("x", "given"), ("y", "missing")]
    let s : ModuleSpec := .mk "main" .empty (.sequential [⟨.tool "one" "ping" [] given, .empty⟩,
      ⟨.tool "two" "ping" [x, y] (.required "last" .integer), mapping⟩])
    let m : Module := .mk "main" .empty (.sequential [
      ⟨.mk "one" (.ofSides [] [given]) (.tool "ping"), .empty⟩,
      ⟨.mk "two" (.ofSides [x, y] [.required "last" .integer]) (.tool "ping"), mapping⟩])
    let c : Context := { pinging with policy := .strict }
    (s.compileWith (Resolver.compileAt .empty 0) .empty).1 = .ok m ∧
    ∃ i u, .invoked i ∈ ((m.run c [⟨y, .integer 2⟩]).withinLimit none).events ∧
      u.child.id = "two" ∧ i.input = [⟨x, .integer 1⟩] ∧ i.Serves .strict u := by
  intro x y given mapping s m c
  have hcompiles : (s.compileWith (Resolver.compileAt .empty 0) .empty).1 = .ok m := rfl
  have hway : m.RunsAs (fun c => c.policy = .strict ∧ c.InvokesNothing) (m.executable c) :=
    runsAs_executable (P := fun c => c.policy = .strict ∧ c.InvokesNothing)
      ⟨rfl, invokesNothing_pinging .strict⟩ m
  have hevent : (((m.executable c).run [⟨y, .integer 2⟩]).withinLimit none).events[3]? =
      some (.invoked _) := rfl
  have hi := List.mem_of_getElem? hevent
  obtain ⟨u, -, hserves⟩ := invocation_serves (CompileCache.sound_empty .empty) hcompiles hway hi
  exact ⟨hcompiles, _, u, hi, hserves.child.symm, rfl, hserves⟩

end Module

end WorkflowEngine
