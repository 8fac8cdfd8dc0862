import WorkflowEngine.Engine
import WorkflowEngine.Proofs.Runs.Failures

/-!
# What a run may fail with

An engine whose chat client fails with chat errors, and whose fetch fails with HTTP errors, ends a
run with few kinds of errors, whatever its tools fail with. None of them is raised before anything
runs, none is about reading, settings or files, and what is about unresolved inputs or missing
outputs needs the strict policy.
-/

namespace WorkflowEngine

/-- A run within a limit fails as it does without, or because it takes too long. -/
theorem Run.error_or_timeout_of_withinLimit {α : Type} {r : Run α} {limit : Option Duration}
    {err : Error} (h : (r.withinLimit limit).outcome = .error err) :
    r.outcome = .error err ∨ ∃ l, limit = some l ∧ err = .timeout l := by
  cases limit with
  | none => exact .inl h
  | some l =>
    rw [withinLimit, within] at h
    split at h
    · exact .inl h
    · cases h
      exact .inr ⟨l, rfl, rfl⟩

/-- What a run within a limit gives, it gives without. -/
theorem Run.outcome_of_withinLimit_eq_ok {α : Type} {r : Run α} {limit : Option Duration} {a : α}
    (h : (r.withinLimit limit).outcome = .ok a) : r.outcome = .ok a := by
  cases limit with
  | none => exact h
  | some l =>
    rw [withinLimit, within] at h
    split at h
    · exact h
    · cases h

namespace ChatClient

/-- The client of a service fails with chat errors only, whatever the fetch fails with. -/
theorem exists_fault_of_service {s : Service} {fetch : Fetch} {prompt : String} {err : Error}
    (h : ((service s fetch).generate prompt).outcome = .error err) :
    ∃ fault, err = .chat fault := by
  simp only [service] at h
  generalize (fetch ⟨"POST", s.endpoint, some (s.message prompt)⟩).closing _ = sent at h
  unfold Run.andThen at h
  split at h
  · next e hsent =>
    cases h
    obtain ⟨outcome, _, _⟩ := sent
    cases outcome with
    | ok answer => cases hsent
    | error e' =>
      cases hsent
      exact ⟨_, rfl⟩
  · next answer hsent =>
    have hread : readAnswer answer = .error err := h
    unfold readAnswer at hread
    split at hread
    · split at hread
      · cases hread
      · cases hread
        exact ⟨_, rfl⟩
    · cases hread
      exact ⟨_, rfl⟩

end ChatClient

namespace Engine

/-- The errors that a run of an engine may end with. -/
inductive Raises (e : Engine) : Error → Prop where
  /-- A switch has no branch for what its condition is bound to. -/
  | unmatchedCondition (name value : String) : Raises e (.unmatchedCondition name value)
  /-- Under the strict policy, an input cannot be resolved. -/
  | unresolvedInput (hpolicy : e.policy = .strict) (input source : String) :
    Raises e (.unresolvedInput input source)
  /-- Under the strict policy, a declared output has not been produced. -/
  | missingOutput (hpolicy : e.policy = .strict) (name : String) : Raises e (.missingOutput name)
  /-- A tool is not there. -/
  | toolNotFound {name : String} (h : e.tools.find? name = none) : Raises e (.toolNotFound name)
  /-- A tool fails. -/
  | tool (name text : String) : Raises e (.tool name text)
  /-- A text generation fails. -/
  | chat (fault : ChatFault) : Raises e (.chat fault)
  /-- A leaf cannot do its work. -/
  | leaf (fault : LeafFault) : Raises e (.leaf fault)
  /-- A request gets no answer. -/
  | http (reason : String) : Raises e (.http reason)
  /-- A leaf is given a text that is not JSON. -/
  | json (reason : String) : Raises e (.json reason)
  /-- The run takes longer than the engine lets it. -/
  | timeout {limit : Duration} (h : e.timeout = some limit) : Raises e (.timeout limit)

/-- No run ends with an error that belongs to the time before it. -/
theorem Raises.isCompileTime_eq_false {e : Engine} {err : Error} (h : e.Raises err) :
    err.isCompileTime = false := by
  cases h <;> rfl

/-- Surroundings in which an engine may run a module: the policy is the engine's, its tools are
there, and text generations and fetches fail in their own ways only. -/
structure Admits (e : Engine) (c : Context) : Prop where
  /-- The policy is that of the engine. -/
  policy : c.policy = e.policy
  /-- A tool that is missing is not among those of the engine. -/
  tools : ∀ name, c.tools.find? name = none → e.tools.find? name = none
  /-- Text generations fail with chat errors. -/
  client : ∀ prompt err, (c.client.generate prompt).outcome = .error err →
    ∃ fault, err = .chat fault
  /-- Fetches fail with HTTP errors. -/
  fetch : ∀ request err, (c.fetch request).outcome = .error err → ∃ reason, err = .http reason

variable {e : Engine}

/-- An error that comes from a run in such surroundings is one that the engine may raise. -/
theorem raises_of_origin {calls : List Event} {err : Error} (h : err.Origin e.Admits calls) :
    e.Raises err := by
  cases h with
  | unmatchedCondition name value => exact .unmatchedCondition name value
  | strict hc hpolicy honly =>
    have hstrict : e.policy = .strict := hc.policy.symm.trans hpolicy
    cases honly with
    | unresolvedInput input source => exact .unresolvedInput hstrict input source
    | missingOutput name => exact .missingOutput hstrict name
  | toolNotFound hc hnone => exact .toolNotFound (hc.tools _ hnone)
  | tool name text => exact .tool name text
  | leaf fault => exact .leaf fault
  | json reason => exact .json reason
  | generated hc hanswer _ =>
    obtain ⟨fault, rfl⟩ := hc.client _ _ hanswer
    exact .chat fault
  | requested hc hanswer _ =>
    obtain ⟨reason, rfl⟩ := hc.fetch _ _ hanswer
    exact .http reason

/-- In whatever way a module runs, within the limit of the engine it fails with an error that the
engine may raise. -/
theorem raises_of_runsAs {m : Module} {x : Executable} (hx : m.RunsAs e.Admits x)
    {input : List Value} {err : Error}
    (h : ((x.run input).withinLimit e.timeout).outcome = .error err) : e.Raises err := by
  rcases Run.error_or_timeout_of_withinLimit h with h | ⟨limit, hlimit, rfl⟩
  · exact raises_of_origin (hx.accounts input err h)
  · exact .timeout hlimit

/-- What runs of an engine fail with, if its chat client fails with chat errors and its fetch with
HTTP errors:

1. the run of a module fails with an error that the engine may raise, and never with one that
   belongs to the time before it;
2. so it does in all ways in which the module may run, in whatever order branches end and whatever
   each call is answered with;
3. so does the run of a name of the table, and a name that is not there is an unresolved
   reference. -/
theorem raises_of_execute (e : Engine)
    (hclient : ∀ prompt err, (e.client.generate prompt).outcome = .error err →
      ∃ fault, err = .chat fault)
    (hfetch : ∀ request err, (e.fetch request).outcome = .error err → ∃ reason, err = .http reason)
    (executionId : String) (input : List Value) :
    (∀ m err, (e.execute executionId m input).outcome = .error err →
      e.Raises err ∧ err.isCompileTime = false) ∧
    (∀ (m : Module) (x : Executable), m.RunsAs e.Admits x → ∀ err,
      ((x.run input).withinLimit e.timeout).outcome = .error err →
        e.Raises err ∧ err.isCompileTime = false) ∧
    ∀ id err, (e.executeById executionId id input).1.outcome = .error err →
      (e.Raises err ∧ err.isCompileTime = false) ∨
        (e.modules.find? id = none ∧ err = .unresolvedReference id) := by
  have hadmits : e.Admits (e.context executionId input) :=
    ⟨rfl, fun _ h => h, hclient, hfetch⟩
  have hways : ∀ (m : Module) (x : Executable), m.RunsAs e.Admits x → ∀ err,
      ((x.run input).withinLimit e.timeout).outcome = .error err →
        e.Raises err ∧ err.isCompileTime = false := by
    intro m x hx err h
    have hraises := raises_of_runsAs hx h
    exact ⟨hraises, hraises.isCompileTime_eq_false⟩
  have hexecute : ∀ m err, (e.execute executionId m input).outcome = .error err →
      e.Raises err ∧ err.isCompileTime = false := by
    intro m err h
    exact hways m _ (Module.runsAs_executable hadmits m) err h
  refine ⟨hexecute, hways, ?_⟩
  intro id err h
  unfold executeById at h
  split at h
  · next m _ => exact .inl (hexecute m err h)
  · next hnone =>
    cases h
    exact .inr ⟨hnone, rfl⟩

/-- A tool may fail with an error of any kind, and yet the run fails with a tool's error. -/
theorem raises_foreign :
    let broken : Tool := .ofFunction "broken" fun _ => .error (.unresolvedReference "x")
    let m : Module := .mk "call" (.ofSides [] [.required "y" .any]) (.tool "broken")
    let service : ChatClient := .service ⟨ChatClient.defaultEndpoint, none, none, none⟩ .unreachable
    let e : Engine := ⟨.ofList [m], service, .ofList [broken], .strict, none, .unreachable⟩
    let text := (Error.unresolvedReference "x").message
    (e.execute "run" m []).outcome = .error (.tool "broken" text) ∧
      e.Raises (.tool "broken" text) := by
  intro broken m service e text
  have houtcome : (e.execute "run" m []).outcome = .error (.tool "broken" text) := rfl
  have hfetch : ∀ request err, (e.fetch request).outcome = .error err →
      ∃ reason, err = .http reason := by
    rintro request err ⟨⟩
    exact ⟨_, rfl⟩
  obtain ⟨hraises, -⟩ := raises_of_execute e
    (fun _ _ h => ChatClient.exists_fault_of_service h) hfetch "run" []
  exact ⟨houtcome, (hraises m _ houtcome).1⟩

end Engine

end WorkflowEngine
