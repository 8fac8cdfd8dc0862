import WorkflowEngine.Proofs.Runs.Errors
import WorkflowEngine.Proofs.Runs.Invocations

/-!
# What strict runs require

Under the strict policy a composite fails when it turns to a child and cannot draw on an input that
the child requires. If that is a child with which the run begins, nothing has been called by then.
But nobody turns to the module that is run: what it requires for itself is required by those of its
children that require it, and by a leaf not at all.
-/

namespace WorkflowEngine

namespace Run

variable {α β : Type}

/-- A run refuses: it fails at once, before anything is called. -/
structure Refuses (r : Run α) (err : Error) : Prop where
  /-- It ends with the error. -/
  outcome : r.outcome = .error err
  /-- Nothing is called. -/
  calls : r.calls = []
  /-- It takes no time. -/
  elapsed : r.elapsed = 0

namespace Refuses

variable {r : Run α} {err : Error}

theorem fail (err : Error) : (Run.fail err : Run α).Refuses err := ⟨rfl, rfl, rfl⟩

/-- Nothing comes after a run that refuses. -/
theorem andThen (h : r.Refuses err) (next : α → Run β) : (r.andThen next).Refuses err where
  outcome := (andThen_of_error next h.outcome).1
  calls := (calls_andThen_of_error next h.outcome).trans h.calls
  elapsed := by
    unfold Run.andThen
    rw [h.outcome]
    exact h.elapsed

/-- That a child refuses is put into the log, but is not a call. -/
theorem closing_invoked (h : r.Refuses err) (i : Except Error α → Invocation) :
    (r.closing fun outcome => .invoked (i outcome)).Refuses err where
  outcome := h.outcome
  calls := by
    rw [Run.calls, events_closing, List.filter_append]
    exact List.append_eq_nil_iff.2 ⟨h.calls, rfl⟩
  elapsed := h.elapsed

/-- No limit of time is too short to refuse. -/
theorem withinLimit (h : r.Refuses err) (limit : Option Duration) :
    (r.withinLimit limit).Refuses err := by
  cases limit with
  | none => exact h
  | some limit =>
    have hlimit : r.withinLimit (some limit) = r := if_pos (h.elapsed ▸ Nat.zero_le _)
    rwa [hlimit]

/-- What comes after a result at once refuses as it does by itself. -/
theorem after {next : α → Run β} {a : α} (h : (next a).Refuses err) :
    ((ofExcept (.ok a)).andThen next).Refuses err where
  outcome := h.outcome
  calls := (calls_andThen_of_ok next rfl).trans h.calls
  elapsed := (Nat.zero_add _).trans h.elapsed

end Refuses

end Run

/-- A child lacks an input that it requires: its composite can draw on nothing that is bound to the
source of the input. The input goes by its full name and its source. -/
inductive Step.Lacks (u : Step Module) (available : ValueSet) : String → String → Prop where
  /-- Nothing is bound to the source of an input that is not optional. -/
  | intro {spec : ValueSpec} (hspec : spec ∈ u.child.signature.input)
    (hrequired : spec.optional = false)
    (hunbound : available.get? (sourceName u.mapping spec) = none) :
    Lacks u available (u.child.id ++ "." ++ spec.name) (sourceName u.mapping spec)

namespace Step

variable {u : Step Module} {available : ValueSet} {policy : InputPolicy}

/-- If inputs of a child are not resolved, it lacks one. -/
theorem exists_lacks_of_resolveInputs {err : Error}
    (h : resolveInputs u.child.id u.mapping policy available u.child.signature.input =
      .error err) :
    ∃ name source, err = .unresolvedInput name source ∧ u.Lacks available name source := by
  obtain ⟨_, spec, hspec, hrequired, hunbound, rfl⟩ :=
    Executable.exists_of_resolveInputs_eq_error h
  exact ⟨_, _, rfl, .intro hspec hrequired hunbound⟩

/-- Under the strict policy the inputs of a child that lacks one are not resolved. -/
theorem Lacks.resolveInputs_ne_ok {name source : String} (h : u.Lacks available name source)
    (taken : List Value) :
    resolveInputs u.child.id u.mapping .strict available u.child.signature.input ≠ .ok taken := by
  intro htaken
  cases h with
  | intro hspec hrequired hunbound =>
    exact (resolveInputs_eq_ok_iff.1 htaken).1 rfl _ hspec hrequired hunbound

/-- The inputs of a child are resolved alike in whatever way it runs. -/
theorem Rel.resolveInputs_eq {P : Context → Prop} {s : Step Executable}
    (h : Step.Rel (Module.RunsAs P) u s) (policy : InputPolicy) (available : ValueSet) :
    resolveInputs s.child.id s.mapping policy available s.child.signature.input =
      resolveInputs u.child.id u.mapping policy available u.child.signature.input := by
  rw [h.child.id_eq, h.child.signature_eq, h.mapping]

end Step

namespace Executable

variable {policy : InputPolicy} {input : List Value} {err : Error}

/-! ## What children a run depends on -/

/-- A child whose inputs are resolved is invoked on them. -/
theorem resolveAndInvoke_of_ok {child : Executable} {mapping : Dictionary String}
    {available : ValueSet} {taken : List Value}
    (h : resolveInputs child.id mapping policy available child.signature.input = .ok taken) :
    child.resolveAndInvoke policy mapping available =
      (Run.ofExcept (.ok taken)).andThen (child.invoke mapping available) := by
  rw [resolveAndInvoke, h]

/-- A child whose inputs are not resolved fails for that reason. -/
theorem resolveAndInvoke_of_error {child : Executable} {mapping : Dictionary String}
    {available : ValueSet}
    (h : resolveInputs child.id mapping policy available child.signature.input = .error err) :
    child.resolveAndInvoke policy mapping available = .fail err := by
  rw [resolveAndInvoke, h]
  rfl

/-- Steps end as the first of them do, or as the others on what the first have led to. -/
theorem outcome_runSteps_append (policy : InputPolicy) (before rest : List (Step Executable))
    (current : ValueSet) :
    (runSteps policy (before ++ rest) current).outcome =
      (runSteps policy before current).outcome >>= fun available =>
        (runSteps policy rest available).outcome := by
  induction before generalizing current with
  | nil => rfl
  | cons s before ih =>
    rw [List.cons_append, runSteps, Run.outcome_andThen, runSteps, Run.outcome_andThen, bind_assoc]
    simp only [ih]

/-- Steps fail because of one of them, which those before have led up to. -/
theorem exists_of_runSteps_eq_error {steps : List (Step Executable)} {current : ValueSet}
    (h : (runSteps policy steps current).outcome = .error err) :
    ∃ before s rest available, steps = before ++ s :: rest ∧
      (runSteps policy before current).outcome = .ok available ∧
      (s.child.resolveAndInvoke policy s.mapping available).outcome = .error err := by
  induction steps generalizing current with
  | nil => cases h
  | cons s rest ih =>
    rcases Run.exists_of_andThen_eq_error h with hfirst | ⟨outputs, houtputs, hrest⟩
    · exact ⟨[], s, rest, current, rfl, rfl, hfirst⟩
    · obtain ⟨before, s', rest', available, rfl, havailable, hfails⟩ := ih hrest
      have hbefore : (runSteps policy (s :: before) current).outcome = .ok available :=
        (Run.andThen_of_ok _ houtputs).1.trans havailable
      exact ⟨s :: before, s', rest', available, rfl, hbefore, hfails⟩

variable {c : Context} {schedule : Schedule} {id : ModuleId} {signature : Signature}
  {kind : Kind Executable Executable}

/-- A composite has a result only if each child that it turns to has one, on inputs that are
resolved. -/
theorem Turn.exists_given {s : Step Executable} {available : ValueSet} {outputs : List Value}
    (hturn : Turn c.policy kind input s available)
    (h : ((ofKindBy c schedule id signature kind).run input).outcome = .ok outputs) :
    ∃ taken given,
      resolveInputs s.child.id s.mapping c.policy available s.child.signature.input = .ok taken ∧
        (s.child.run taken).outcome = .ok given := by
  cases hturn with
  | @step before rest s input available hbefore =>
    obtain ⟨final, hsteps, -⟩ := Run.exists_of_andThen_eq_ok h
    rw [outcome_runSteps_append, hbefore] at hsteps
    obtain ⟨given, hgiven, -⟩ := Run.exists_of_andThen_eq_ok hsteps
    obtain ⟨taken, htaken, hrun⟩ := Run.exists_of_andThen_eq_ok hgiven
    exact ⟨taken, given, htaken, hrun⟩
  | branch hb =>
    obtain ⟨results, hresults, -⟩ := exists_of_runParallelBy_eq_ok h
    obtain ⟨given, -, taken, htaken, hrun⟩ := exists_mem_of_forall₂ hresults.flip hb
    exact ⟨taken, given, htaken, hrun⟩
  | selected hselect =>
    have hrun := congrArg Run.outcome (runSwitch_of_selected signature c.policy hselect)
    obtain ⟨given, hgiven, -⟩ := Run.exists_of_andThen_eq_ok (hrun.symm.trans h)
    obtain ⟨taken, htaken, hrun⟩ := Run.exists_of_andThen_eq_ok hgiven
    exact ⟨taken, given, htaken, hrun⟩

end Executable

/-- A text generation or a fetch is answered with an error. -/
inductive AnswersWith (client : ChatClient) (fetch : Fetch) (err : Error) : Prop where
  /-- A prompt is. -/
  | client {prompt : String} (h : (client.generate prompt).outcome = .error err)
  /-- A request is. -/
  | fetch {request : Http.Request} (h : (fetch request).outcome = .error err)

namespace Executable

variable {c : Context} {schedule : Schedule} {id : ModuleId} {signature : Signature}
  {kind : Kind Executable Executable} {input : List Value} {name source : String}

/-- A leaf does not look for inputs: it fails for want of one only if a capability answers so. -/
theorem answersWith_of_leaf (hchildren : kind.children = []) (htarget : kind.target? = none)
    (hlenient : (ofKindBy { c with policy := .lenient } schedule id signature kind).run =
      (ofKindBy c schedule id signature kind).run)
    (h : ((ofKindBy c schedule id signature kind).run input).outcome =
      .error (.unresolvedInput name source)) :
    AnswersWith c.client c.fetch (.unresolvedInput name source) := by
  -- A leaf runs as it does under the lenient policy, where no error is about inputs.
  let P : Context → Prop := fun d => d.policy = .lenient ∧ d.client = c.client ∧ d.fetch = c.fetch
  have horigin := accounts_ofKindBy (P := P) (c := { c with policy := .lenient }) ⟨rfl, rfl, rfl⟩
    schedule id signature (by rw [hchildren]; nofun) (by rw [htarget]; nofun) input _
    (hlenient ▸ h)
  cases horigin with
  | strict hc hpolicy _ => cases hc.1.symm.trans hpolicy
  | generated hc hanswer _ => exact .client (hc.2.1 ▸ hanswer)
  | requested hc hanswer _ => exact .fetch (hc.2.2 ▸ hanswer)

/-- A module fails for want of an input because a child that it turns to lacks the input, or fails
so itself, as may the module referred to; unless a capability answers so. -/
theorem exists_of_run_eq_unresolvedInput
    (h : ((ofKindBy c schedule id signature kind).run input).outcome =
      .error (.unresolvedInput name source)) :
    AnswersWith c.client c.fetch (.unresolvedInput name source) ∨
      (∃ s available, Turn c.policy kind input s available ∧
        (resolveInputs s.child.id s.mapping c.policy available s.child.signature.input =
            .error (.unresolvedInput name source) ∨
          ∃ taken,
            resolveInputs s.child.id s.mapping c.policy available s.child.signature.input =
              .ok taken ∧
            (s.child.run taken).outcome = .error (.unresolvedInput name source))) ∨
      ∃ y, kind = .subWorkflow y ∧
        (y.run input).outcome = .error (.unresolvedInput name source) := by
  cases kind with
  | sequential steps =>
    rcases Run.exists_of_andThen_eq_error h with hsteps | ⟨current, -, hgather⟩
    · obtain ⟨before, s, rest, available, rfl, hbefore, hfails⟩ :=
        exists_of_runSteps_eq_error hsteps
      exact .inr (.inl ⟨s, available, .step hbefore, Run.exists_of_andThen_eq_error hfails⟩)
    · have hmissing : gatherOutputs id c.policy signature.output current =
          .error (.unresolvedInput name source) := hgather
      unfold gatherOutputs at hmissing
      split at hmissing <;> cases hmissing
  | parallel branches =>
    obtain ⟨b, hb, hfails⟩ := exists_of_runParallelBy_eq_error h
    exact .inr (.inl ⟨⟨b, .empty⟩, ⟨input⟩, .branch hb, hfails⟩)
  | switch condition cases fallback =>
    rcases exists_of_runSwitch_eq_error h with ⟨-, hunmatched⟩ | ⟨b, hselect, hfails⟩
    · cases hunmatched
    · exact .inr (.inl ⟨⟨b, .empty⟩, ⟨input⟩, .selected hselect, hfails⟩)
  | subWorkflow y => exact .inr (.inr ⟨y, rfl, h⟩)
  | llm _ | tool _ | http | jsonExtract _ => exact .inl (answersWith_of_leaf rfl rfl rfl h)

end Executable

namespace Module

variable {P : Context → Prop} {m : Module} {x : Executable} {input : List Value}
  {u : Step Module} {name source : String}

/-! ## Children that lack an input when they are turned to -/

/-- A module that runs in a certain way comes to want: it, or a module inside it, turns to a child
that lacks an input. -/
inductive Misses (P : Context → Prop) :
    Module → Executable → List Value → String → String → Prop where
  /-- A composite turns to a child that lacks an input. -/
  | own {id : ModuleId} {signature : Signature} {kind : Kind Module Module} {c : Context}
    {schedule : Schedule} {kind' : Kind Executable Executable} {input : List Value}
    {u : Step Module} {s : Step Executable} {available : ValueSet} {name source : String} (hc : P c)
    (hways : kind.Rel (RunsAs P) (RunsAs P) kind') (hu : u ∈ kind.uses)
    (hway : Step.Rel (RunsAs P) u s) (hturn : Executable.Turn c.policy kind' input s available)
    (h : u.Lacks available name source) :
    Misses P (.mk id signature kind) (Executable.ofKindBy c schedule id signature kind') input name
      source
  /-- A child comes to want on the inputs resolved for it. -/
  | inside {m : Module} {x : Executable} {input taken : List Value} {u : Step Module}
    {s : Step Executable} {available : ValueSet} {name source : String}
    (hturn : TurnsTo P m x input u s available taken)
    (h : Misses P u.child s.child taken name source) : Misses P m x input name source
  /-- The module that is referred to does. -/
  | call {id : ModuleId} {signature : Signature} {callee : Module} {c : Context}
    {schedule : Schedule} {y : Executable} {input : List Value} {name source : String}
    (h : Misses P callee y input name source) :
    Misses P (.mk id signature (.subWorkflow callee))
      (Executable.ofKindBy c schedule id signature (.subWorkflow y)) input name source

/-- Under the strict policy a run that comes to want has no result. -/
theorem Misses.outcome_ne_ok (h : m.Misses P x input name source)
    (hP : ∀ c, P c → c.policy = .strict) (outputs : List Value) :
    (x.run input).outcome ≠ .ok outputs := by
  induction h generalizing outputs with
  | own hc _ _ hway hturn hlacks =>
    intro hok
    obtain ⟨taken, -, htaken, -⟩ := hturn.exists_given hok
    rw [hway.resolveInputs_eq, hP _ hc] at htaken
    exact hlacks.resolveInputs_ne_ok taken htaken
  | inside hturn _ ih =>
    intro hok
    cases hturn with
    | intro _ _ _ _ hturn htaken =>
      obtain ⟨taken', given, htaken', hgiven⟩ := hturn.exists_given hok
      obtain rfl := Except.ok.inj (htaken.symm.trans htaken')
      exact ih given hgiven
  | call _ ih => exact ih outputs

/-- In whatever way a module runs, it fails for want of an input only if it comes to want it, unless
a capability answers so. -/
theorem RunsAs.misses (h : m.RunsAs P x)
    (herr : (x.run input).outcome = .error (.unresolvedInput name source)) :
    (∃ c, P c ∧ AnswersWith c.client c.fetch (.unresolvedInput name source)) ∨
      m.Misses P x input name source := by
  refine RunsAs.induct (Q := fun m x => ∀ input,
    (x.run input).outcome = .error (.unresolvedInput name source) →
      (∃ c, P c ∧ AnswersWith c.client c.fetch (.unresolvedInput name source)) ∨
        m.Misses P x input name source) ?_ h input herr
  intro id signature kind c schedule kind' hc hrel input herr
  rcases Executable.exists_of_run_eq_unresolvedInput herr with
    hanswers | ⟨s, available, hturn, hfails⟩ | ⟨y, rfl, hy⟩
  · exact .inl ⟨c, hc, hanswers⟩
  · obtain ⟨hways, u, hu, hway, hchild⟩ := exists_use_of_turn hrel hturn
    rcases hfails with hresolve | ⟨taken, htaken, hrun⟩
    · rw [hway.resolveInputs_eq] at hresolve
      obtain ⟨_, _, herror, hlacks⟩ := Step.exists_lacks_of_resolveInputs hresolve
      cases herror
      exact .inr (.own hc hways hu hway hturn hlacks)
    · exact (hchild taken hrun).imp_right
        fun hmisses => .inside (.intro hc hways hu hway hturn htaken) hmisses
  · cases hrel with
    | subWorkflow hcallee => exact (hcallee.2 input hy).imp_right .call

/-! ## Children with which a run begins -/

/-- The children with which a composite begins: it turns to them when it can draw on its input
alone. -/
inductive Opens : Module → List Value → Step Module → Prop where
  /-- A sequence begins with its first step. -/
  | first {id : ModuleId} {signature : Signature} {u : Step Module} {rest : List (Step Module)}
    {input : List Value} : Opens (.mk id signature (.sequential (u :: rest))) input u
  /-- A fan-out begins with all branches. -/
  | branch {id : ModuleId} {signature : Signature} {branches : List Module} {b : Module}
    {input : List Value} (h : b ∈ branches) :
    Opens (.mk id signature (.parallel branches)) input ⟨b, .empty⟩
  /-- A switch begins with the branch that it selects. -/
  | selected {id : ModuleId} {signature : Signature} {condition : String}
    {cases : List (Case Module)} {fallback : Option Module} {b : Module} {input : List Value}
    (h : Executable.select cases fallback (Executable.conditionIn condition input) = some b) :
    Opens (.mk id signature (.switch condition cases fallback)) input ⟨b, .empty⟩

/-- A module begins with want: a child with which it, or a module inside it, begins lacks an
input. -/
inductive Wants : Module → List Value → String → String → Prop where
  /-- A composite begins with a child that lacks an input. -/
  | own {m : Module} {input : List Value} {u : Step Module} {name source : String}
    (hopens : m.Opens input u) (h : u.Lacks ⟨input⟩ name source) : Wants m input name source
  /-- The one child with which a sequence or a switch begins does so with want. -/
  | inside {m : Module} {input taken : List Value} {u : Step Module} {name source : String}
    (hopens : m.Opens input u) (halone : m.type ≠ .parallel)
    (htaken : resolveInputs u.child.id u.mapping .strict ⟨input⟩ u.child.signature.input =
      .ok taken) (h : Wants u.child taken name source) : Wants m input name source
  /-- The module that is referred to does. -/
  | call {id : ModuleId} {signature : Signature} {callee : Module} {input : List Value}
    {name source : String} (h : Wants callee input name source) :
    Wants (.mk id signature (.subWorkflow callee)) input name source

/-- A sequence or a switch refuses if the child with which it begins does. -/
theorem Opens.exists_way (h : m.Opens input u) (halone : m.type ≠ .parallel)
    (hP : ∀ c, P c → c.policy = .strict) (hx : m.RunsAs P x) :
    ∃ s, Step.Rel (RunsAs P) u s ∧
      ∀ err, (s.child.resolveAndInvoke .strict s.mapping ⟨input⟩).Refuses err →
        (x.run input).Refuses err := by
  cases h with
  | first =>
    obtain ⟨c, schedule, kind', hc, hrel, rfl⟩ := runsAs_mk_iff.1 hx
    cases hrel with
    | sequential hsteps =>
      cases hsteps with
      | cons hway _ =>
        refine ⟨_, hway, fun err hrefuses => ?_⟩
        rw [← hP c hc] at hrefuses
        exact (hrefuses.andThen _).andThen _
  | branch _ => exact absurd rfl halone
  | @selected _ signature condition _ _ _ input hselect =>
    obtain ⟨c, schedule, kind', hc, hrel, rfl⟩ := runsAs_mk_iff.1 hx
    cases hrel with
    | @switch _ _ cases' _ fallback' hcases hfallback =>
      obtain ⟨b', hselect', hway⟩ := Executable.exists_select_eq_some hcases hfallback hselect
      refine ⟨⟨b', .empty⟩, ⟨hway, rfl⟩, fun err hrefuses => ?_⟩
      have hswitch : (Executable.runSwitch signature c.policy condition cases' fallback'
          input).Refuses err := by
        rw [Executable.runSwitch_of_selected signature c.policy hselect', hP c hc]
        exact hrefuses.andThen _
      exact hswitch

/-- A fan-out refuses if one of its branches lacks an input. -/
theorem exists_refuses_of_branch {id : ModuleId} {signature : Signature} {branches : List Module}
    {b : Module} (hb : b ∈ branches) (h : Step.Lacks ⟨b, .empty⟩ ⟨input⟩ name source)
    (hP : ∀ c, P c → c.policy = .strict) (hx : RunsAs P (.mk id signature (.parallel branches)) x) :
    ∃ b ∈ branches, ∃ name source, Step.Lacks ⟨b, .empty⟩ ⟨input⟩ name source ∧
      (x.run input).Refuses (.unresolvedInput name source) := by
  obtain ⟨c, schedule, kind', hc, hrel, rfl⟩ := runsAs_mk_iff.1 hx
  cases hrel with
  | @parallel _ branches' hways =>
    cases hready : Executable.resolveBranches .strict ⟨input⟩ branches' with
    | ok ready =>
      obtain ⟨y, hy, hway⟩ := exists_mem_of_forall₂ hways.flip hb
      obtain ⟨⟨_, taken⟩, -, -, htaken⟩ :=
        exists_mem_of_forall₂ (Executable.forall₂_of_resolveBranches_eq_ok hready).flip hy
      rw [Step.Rel.resolveInputs_eq (u := ⟨b, .empty⟩) (s := ⟨y, .empty⟩) ⟨hway, rfl⟩] at htaken
      exact absurd htaken (h.resolveInputs_ne_ok taken)
    | error err =>
      obtain ⟨y, hy, hresolve⟩ := Executable.exists_of_resolveBranches_eq_error hready
      obtain ⟨b', hb', hway⟩ := exists_mem_of_forall₂ hways hy
      rw [Step.Rel.resolveInputs_eq (u := ⟨b', .empty⟩) (s := ⟨y, .empty⟩) ⟨hway, rfl⟩] at hresolve
      obtain ⟨name', source', rfl, hlacks⟩ := Step.exists_lacks_of_resolveInputs hresolve
      refine ⟨b', hb', name', source', hlacks, ?_⟩
      have hfanOut : (Executable.runParallelBy schedule id signature c.policy branches'
          input).Refuses (.unresolvedInput name' source') := by
        rw [hP c hc]
        simp only [Executable.runParallelBy, hready]
        exact (Run.Refuses.fail _).andThen _
      exact hfanOut

/-- In whatever way a composite runs that begins with a child that lacks an input, it refuses for
want of an input that a child lacks with which it begins. -/
theorem Opens.exists_refuses (h : m.Opens input u) (hlacks : u.Lacks ⟨input⟩ name source)
    (hP : ∀ c, P c → c.policy = .strict) (hx : m.RunsAs P x) :
    ∃ u name source, m.Opens input u ∧ u.Lacks ⟨input⟩ name source ∧
      (x.run input).Refuses (.unresolvedInput name source) := by
  by_cases hparallel : m.type = .parallel
  · cases h with
    | branch hb =>
      obtain ⟨b, hb, name, source, hlacks, hrefuses⟩ := exists_refuses_of_branch hb hlacks hP hx
      exact ⟨_, name, source, .branch hb, hlacks, hrefuses⟩
    | first | selected _ => cases hparallel
  · obtain ⟨s, hway, hrefuses⟩ := h.exists_way hparallel hP hx
    cases hresolve : resolveInputs u.child.id u.mapping .strict ⟨input⟩ u.child.signature.input with
    | ok taken => exact absurd hresolve (hlacks.resolveInputs_ne_ok taken)
    | error err =>
      obtain ⟨name', source', rfl, hlacks'⟩ := Step.exists_lacks_of_resolveInputs hresolve
      refine ⟨u, name', source', h, hlacks', hrefuses _ ?_⟩
      rw [Executable.resolveAndInvoke_of_error ((hway.resolveInputs_eq _ _).trans hresolve)]
      exact .fail _

/-- In whatever way a module runs that begins with want, it refuses for want of an input with which
it begins. -/
theorem Wants.exists_refuses (h : m.Wants input name source) (hP : ∀ c, P c → c.policy = .strict)
    (hx : m.RunsAs P x) :
    ∃ name source, m.Wants input name source ∧
      (x.run input).Refuses (.unresolvedInput name source) := by
  induction h generalizing x with
  | own hopens hlacks =>
    obtain ⟨u, name, source, hopens, hlacks, hrefuses⟩ := hopens.exists_refuses hlacks hP hx
    exact ⟨name, source, .own hopens hlacks, hrefuses⟩
  | inside hopens halone htaken _ ih =>
    obtain ⟨s, hway, hrefuses⟩ := hopens.exists_way halone hP hx
    obtain ⟨name, source, hwants, hchild⟩ := ih hway.child
    refine ⟨name, source, .inside hopens halone htaken hwants, hrefuses _ ?_⟩
    rw [Executable.resolveAndInvoke_of_ok ((hway.resolveInputs_eq _ _).trans htaken)]
    exact (hchild.closing_invoked _).after
  | call _ ih =>
    obtain ⟨c, schedule, kind', hc, hrel, rfl⟩ := runsAs_mk_iff.1 hx
    cases hrel with
    | subWorkflow hcallee =>
      obtain ⟨name, source, hwants, hrefuses⟩ := ih hcallee
      exact ⟨name, source, .call hwants, hrefuses⟩

/-- If the inputs of a fan-out are derived, and one that it declares as required is not bound, it
begins with want. -/
theorem exists_wants_of_derived {r : Resolver} {s : ModuleSpec} (hyields : s.Yields r m)
    (htype : s.kind.type = .parallel) (hderived : s.signature.input = []) {spec : ValueSpec}
    (hspec : spec ∈ m.signature.input) (hrequired : spec.optional = false)
    (hunbound : ∀ v ∈ input, v.name ≠ spec.name) : ∃ name source, m.Wants input name source := by
  obtain ⟨id, declared, kind⟩ := s
  obtain ⟨_, kind', hrel, rfl⟩ := ModuleSpec.yields_mk_iff.1 hyields
  cases hrel with
  | @parallel _ branches _ =>
    have hside : spec ∈ Signature.deriveSide declared.input
        ((branches.map signature).map Signature.input) := hspec
    rw [show declared.input = [] from hderived, List.map_map] at hside
    obtain ⟨_, hmem, hdeclared⟩ := Signature.mem_of_mem_deriveSide_nil hside
    obtain ⟨b, hb, rfl⟩ := List.mem_map.1 hmem
    exact ⟨_, _, .own (.branch hb) (.intro hdeclared hrequired (get?_eq_none_iff.2 hunbound))⟩
  | sequential _ | switch _ _ _ | subWorkflow _ | llm _ | tool _ | http | jsonExtract _ =>
    cases htype

end Module

namespace Engine

/-- Surroundings in which an engine may run a module, whatever the capabilities do: the policy is
the engine's, and they fail only as those of the engine may. -/
structure Surrounds (e : Engine) (c : Context) : Prop where
  /-- The policy is that of the engine. -/
  policy : c.policy = e.policy
  /-- Text generations and fetches fail as those of the engine may. -/
  answers : ∀ err, AnswersWith c.client c.fetch err → AnswersWith e.client e.fetch err

/-- What the strict policy of an engine means for a run of a module. -/
structure Demands (e : Engine) (m : Module) (x : Executable) (input : List Value)
    (run : Run (List Value)) : Prop where
  /-- If the module begins with want, the run fails for it before anything is called. -/
  refuses : ∀ name source, m.Wants input name source → ∃ name source,
    m.Wants input name source ∧ run.outcome = .error (.unresolvedInput name source) ∧
      run.calls = []
  /-- If it comes to want later, the run fails. -/
  fails : ∀ name source, m.Misses e.Surrounds x input name source → ∃ err, run.outcome = .error err
  /-- For want of an input it fails only if it has come to want it, unless a capability answers
  so. -/
  misses : ∀ name source, run.outcome = .error (.unresolvedInput name source) →
    AnswersWith e.client e.fetch (.unresolvedInput name source) ∨
      m.Misses e.Surrounds x input name source

variable {e : Engine} {m : Module} {x : Executable} {input : List Value}

/-- Under the strict policy of an engine a run is what that policy means for it. -/
theorem demands_of_runsAs (hstrict : e.policy = .strict) (hx : m.RunsAs e.Surrounds x) :
    e.Demands m x input ((x.run input).withinLimit e.timeout) := by
  have hP : ∀ c, e.Surrounds c → c.policy = .strict := fun _ hc => hc.policy.trans hstrict
  refine ⟨?_, ?_, ?_⟩
  · intro name source hwants
    obtain ⟨name, source, hwants, hrefuses⟩ := hwants.exists_refuses hP hx
    have hlimited := hrefuses.withinLimit e.timeout
    exact ⟨name, source, hwants, hlimited.outcome, hlimited.calls⟩
  · intro name source hmisses
    cases hrun : ((x.run input).withinLimit e.timeout).outcome with
    | error err => exact ⟨err, rfl⟩
    | ok outputs =>
      have hok := Run.outcome_of_withinLimit_eq_ok hrun
      exact absurd hok (hmisses.outcome_ne_ok hP outputs)
  · intro name source herr
    rcases Run.error_or_timeout_of_withinLimit herr with herr | ⟨_, _, htimeout⟩
    · exact (hx.misses herr).imp_left fun ⟨c, hc, hanswers⟩ => hc.answers _ hanswers
    · cases htimeout

/-- What a strict engine fails with for want of inputs:

1. if a child with which the run of a module begins lacks an input that it requires, the run fails
   with an unresolved input before anything is called; if a child that is turned to later lacks one,
   the run has no result; and a run fails with an unresolved input only if a child that is turned to
   lacks the input, unless a capability answers so;
2. so it is in all ways in which the module may run, in whatever order branches end and whatever
   each call is answered with;
3. a fan-out whose inputs are derived begins with such a child if an input that it declares as
   required is not bound. -/
theorem execute_of_strict (hstrict : e.policy = .strict) {r : Resolver} {cache : CompileCache}
    (hcache : cache.Sound r) {depth : Nat} {s : ModuleSpec}
    (hm : (s.compileWith (r.compileAt depth) cache).1 = .ok m) (executionId : String)
    (input : List Value) :
    e.Demands m (m.executable (e.context executionId input)) input
        (e.execute executionId m input) ∧
      (∀ x, m.RunsAs e.Surrounds x →
        e.Demands m x input ((x.run input).withinLimit e.timeout)) ∧
      (s.kind.type = .parallel → s.signature.input = [] →
        ∀ spec ∈ m.signature.input, spec.optional = false → (∀ v ∈ input, v.name ≠ spec.name) →
          ∃ name source, m.Wants input name source) := by
  have hsurrounds : e.Surrounds (e.context executionId input) := ⟨rfl, fun _ h => h⟩
  refine ⟨?_, fun x hx => demands_of_runsAs hstrict hx, ?_⟩
  · exact demands_of_runsAs hstrict (Module.runsAs_executable hsurrounds m)
  · intro htype hderived spec hspec hrequired hunbound
    have hyields : s.Yields r m := Resolver.yields_of_compileWith_eq_ok hcache hm
    exact Module.exists_wants_of_derived hyields htype hderived hspec hrequired hunbound

/-- An engine with the strict policy and one tool, which always gives the same number. -/
def strictly : Engine :=
  { Engine.new .empty .unreachable with
    tools := .ofList [.ofFunction "ping" fun _ => .ok (.integer 1)], policy := .strict }

/-- If the second of two calls at the same time lacks what it requires, the first is not made. -/
theorem execute_askingBoth :
    let m : Module := .askingBoth (.required "x" .any) (.required "y" .any)
    let x : Value := ⟨.required "x" .any, .integer 1⟩
    ((Module.askBoth (.required "x" .any) (.required "y" .any)).compileWith
      (Resolver.compileAt .empty 0) .empty).1 = .ok m ∧
    (strictly.execute "run" m [x]).outcome = .error (.unresolvedInput "b.y" "y") ∧
    (strictly.execute "run" m [x]).calls = [] := by
  intro m x
  have hcompiles : ((Module.askBoth (.required "x" .any) (.required "y" .any)).compileWith
      (Resolver.compileAt .empty 0) .empty).1 = .ok m := rfl
  obtain ⟨hdemands, -, hderived⟩ := execute_of_strict (e := strictly) rfl
    (CompileCache.sound_empty .empty) hcompiles "run" [x]
  have hunbound : ∀ v ∈ [x], v.name ≠ "y" := by decide
  obtain ⟨_, _, hwants⟩ := hderived rfl rfl (.required "y" .any) (by decide) rfl hunbound
  obtain ⟨_, _, -, -, hcalls⟩ := hdemands.refuses _ _ hwants
  exact ⟨hcompiles, rfl, hcalls⟩

/-- A strict engine runs a call that lacks what it requires, if it is the module that is run or a
sequence does not begin with it: in the first case the call is made, in the second the one before
it. -/
theorem execute_unbound :
    let x : ValueSpec := .required "x" .any
    let y : ValueSpec := .required "y" .integer
    let call : Module := .mk "call" (.ofSides [x] [y]) (.tool "ping")
    let first : Module := .mk "first" (.ofSides [] [.required "z" .integer]) (.tool "ping")
    let both : Module := .mk "both" (.ofSides [x] [y])
      (.sequential [⟨first, .empty⟩, ⟨call, .empty⟩])
    x.optional = false ∧ x ∈ call.signature.input ∧ x ∈ both.signature.input ∧
    ((ModuleSpec.tool "call" "ping" [x] y).compileWith (Resolver.compileAt .empty 0) .empty).1 =
      .ok call ∧
    (strictly.execute "run" call []).outcome = .ok [⟨y, .integer 1⟩] ∧
    (strictly.execute "run" call []).calls = [.called "ping" .empty (.ok (.integer 1))] ∧
    ((ModuleSpec.mk "both" (.ofSides [x] [y]) (.sequential
      [⟨.tool "first" "ping" [] (.required "z" .integer), .empty⟩,
        ⟨.tool "call" "ping" [x] y, .empty⟩])).compileWith
          (Resolver.compileAt .empty 0) .empty).1 = .ok both ∧
    (strictly.execute "run" both []).outcome = .error (.unresolvedInput "call.x" "x") ∧
    (strictly.execute "run" both []).calls = [.called "ping" .empty (.ok (.integer 1))] := by
  intro x y call first both
  exact ⟨rfl, by decide, by decide, rfl, rfl, rfl, rfl, rfl, rfl⟩

end Engine

end WorkflowEngine
