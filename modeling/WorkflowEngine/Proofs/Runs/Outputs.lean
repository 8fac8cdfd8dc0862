import WorkflowEngine.Proofs.Compilation.Kept
import WorkflowEngine.Proofs.Derivation
import WorkflowEngine.Proofs.Runs.Resolution
import WorkflowEngine.Proofs.Runs.Simulation

/-!
# What runs give

A run that succeeds gives values whose names are declared in the compiled signature. Sequences,
switches and leaves project what they have gathered onto that signature, and calls pass it on, so
that they give declared values in the declared order. Fan-outs list what their branches give in the
order of the branches, which is the declared order only if the signature follows it.
-/

namespace WorkflowEngine

namespace ValueSet

/-- Projected values are some of the declared ones, in their order. -/
theorem map_spec_project_sublist (s : ValueSet) (specs : List ValueSpec) :
    ((s.project specs).map Value.spec).Sublist specs :=
  map_spec_resolved_sublist .empty s specs

/-- If nothing is missing, all declared values are projected. -/
theorem map_spec_project {s : ValueSet} {specs : List ValueSpec} (h : s.missing specs = []) :
    (s.project specs).map Value.spec = specs := by
  induction specs with
  | nil => rfl
  | cons spec rest ih =>
    unfold missing at h ih
    rw [List.map_eq_nil_iff, List.filter_eq_nil_iff, List.forall_mem_cons] at h
    rw [List.map_eq_nil_iff, List.filter_eq_nil_iff] at ih
    unfold project at ih ⊢
    rw [List.filterMap_cons]
    cases hv : s.get? spec.name with
    | none =>
      rw [contains, hv] at h
      exact absurd rfl h.1
    | some v => exact congrArg (spec :: ·) (ih h.2)

end ValueSet

namespace Executable

/-- What is produced has the declared outputs, in their order. -/
theorem map_spec_produce (signature : Signature) (p : ValueSpec → Payload) :
    (produce signature p).map Value.spec = signature.output := by
  rw [produce, List.map_map]
  exact List.map_id _

end Executable

/-- Whether a module of a kind gives everything that its signature declares: a leaf with one output
does, and a sequence under the strict policy. -/
def Kind.GivesAll {ρ α : Type} (policy : InputPolicy) : Kind ρ α → Prop
  | .llm _ | .tool _ | .jsonExtract _ => True
  | .sequential _ => policy = .strict
  | .parallel _ | .switch _ _ _ | .subWorkflow _ | .http => False

namespace Module

/-- A module leads to itself and, if it refers to a module, to what that leads to. -/
inductive LeadsTo : Module → Module → Prop where
  /-- A module leads to itself. -/
  | self (m : Module) : LeadsTo m m
  /-- A reference leads on. -/
  | call {id : ModuleId} {signature : Signature} {callee n : Module} (h : LeadsTo callee n) :
    LeadsTo (.mk id signature (.subWorkflow callee)) n

/-- The signature of a module lists outputs in the order in which the module gives them. Of a
fan-out it lists those outputs of the branches that it declares in the order of the branches, as
the branches declare them. -/
inductive InOrder : Module → Prop where
  /-- The signatures of the branches are in order, and what is declared of their outputs is declared
  one after the other. -/
  | parallel {id : ModuleId} {signature : Signature} {branches : List Module}
    (hbranches : ∀ b ∈ branches, InOrder b)
    (horder : ((branches.flatMap fun b => b.signature.output).filter fun spec =>
      signature.declaresOutput spec.name).Sublist signature.output) :
    InOrder (.mk id signature (.parallel branches))
  /-- The signature of what is called, which the call shares, is in order. -/
  | call {id : ModuleId} {signature : Signature} {callee : Module} (h : InOrder callee) :
    InOrder (.mk id signature (.subWorkflow callee))
  /-- Any other module gives what it gives in the order of its signature. -/
  | project {m : Module} (hparallel : m.type ≠ .parallel) (hcall : m.type ≠ .subWorkflow) :
    InOrder m

/-- A module that leads to no fan-out has its signature in order. -/
theorem InOrder.of_leadsTo {m : Module} (h : ∀ n, m.LeadsTo n → n.type ≠ .parallel) :
    m.InOrder := by
  induction m using induct with
  | step id signature kind _ htarget =>
    by_cases hcall : kind.type = .subWorkflow
    · cases kind with
      | subWorkflow callee => exact .call (htarget callee rfl fun n hn => h n (.call hn))
      | sequential _ | parallel _ | switch _ _ _ | llm _ | tool _ | http | jsonExtract _ =>
        cases hcall
    · exact .project (h _ (.self _)) hcall

/-- What the outputs of a module fulfil under a policy. -/
structure Gives (policy : InputPolicy) (m : Module) (outputs : List Value) : Prop where
  /-- The name of each is declared. -/
  declared : ∀ v ∈ outputs, v.name ∈ m.signature.outputNames
  /-- If the signature is in order, they are declared values in the order of their declarations. -/
  ordered : m.InOrder → (outputs.map Value.spec).Sublist m.signature.output
  /-- If the module leads to one that gives everything, they are all declared values. -/
  all : ∀ n, m.LeadsTo n → n.kind.GivesAll policy → outputs.map Value.spec = m.signature.output

namespace Gives

variable {policy : InputPolicy} {id : ModuleId} {signature : Signature} {kind : Kind Module Module}
  {outputs : List Value}

/-- Some of the declared values, in their order. -/
theorem of_sublist (hcall : kind.type ≠ .subWorkflow)
    (h : (outputs.map Value.spec).Sublist signature.output)
    (hall : kind.GivesAll policy → outputs.map Value.spec = signature.output) :
    (Module.mk id signature kind).Gives policy outputs where
  declared := fun _ hv => List.mem_map_of_mem (h.subset (List.mem_map_of_mem hv))
  ordered := fun _ => h
  all := fun n hn => by
    cases hn with
    | self => exact hall
    | call _ => exact absurd rfl hcall

/-- All declared values. -/
theorem of_eq (hcall : kind.type ≠ .subWorkflow) (h : outputs.map Value.spec = signature.output) :
    (Module.mk id signature kind).Gives policy outputs :=
  of_sublist hcall (h ▸ List.Sublist.refl _) fun _ => h

/-- A call gives what is called gives. -/
theorem call {callee : Module} (h : callee.Gives policy outputs)
    (hsignature : signature.output = callee.signature.output) :
    (Module.mk id signature (.subWorkflow callee)).Gives policy outputs where
  declared := by
    unfold Signature.outputNames
    rw [signature_mk, hsignature]
    exact h.declared
  ordered := fun horder => by
    rw [signature_mk, hsignature]
    cases horder with
    | call horder => exact h.ordered horder
    | project _ hcall => exact absurd rfl hcall
  all := fun n hn hgives => by
    rw [signature_mk, hsignature]
    cases hn with
    | self => cases hgives
    | call hn => exact h.all n hn hgives

end Gives

end Module

namespace Executable

variable {policy : InputPolicy} {id : ModuleId} {signature : Signature} {outputs : List Value}

/-- What is gathered is what is declared; under the strict policy nothing is missing. -/
theorem of_gatherOutputs_eq_ok {current : ValueSet}
    (h : gatherOutputs id policy signature.output current = .ok outputs) :
    outputs = current.project signature.output ∧
      (policy = .strict → current.missing signature.output = []) := by
  unfold gatherOutputs at h
  split at h
  · cases h
  · next hcase =>
    cases h
    refine ⟨rfl, ?_⟩
    rintro rfl
    cases hmissing : current.missing signature.output with
    | nil => rfl
    | cons name rest => exact absurd hmissing (hcase name rest rfl)

/-- A sequence gives declared values, and all of them under the strict policy. -/
theorem gives_runSequential {steps : List (Step Executable)} {steps' : List (Step Module)}
    {input : List Value}
    (h : (runSequential id signature policy steps input).outcome = .ok outputs) :
    (Module.mk id signature (.sequential steps')).Gives policy outputs := by
  obtain ⟨current, _, hgather⟩ := Run.exists_of_andThen_eq_ok h
  obtain ⟨rfl, hmissing⟩ := of_gatherOutputs_eq_ok hgather
  refine .of_sublist nofun (ValueSet.map_spec_project_sublist _ _) ?_
  intro hstrict
  exact ValueSet.map_spec_project (hmissing hstrict)

/-- A switch gives declared values. -/
theorem sublist_of_runSwitch_eq_ok {condition : String} {cases : List (Case Executable)}
    {fallback : Option Executable} {input : List Value}
    (h : (runSwitch signature policy condition cases fallback input).outcome = .ok outputs) :
    (outputs.map Value.spec).Sublist signature.output := by
  unfold runSwitch at h
  simp only at h
  split at h
  · cases h
  · obtain ⟨given, _, h⟩ := Run.exists_of_andThen_eq_ok h
    cases h
    exact ValueSet.map_spec_project_sublist _ _

/-- A leaf with one output gives that. -/
theorem map_spec_of_produce {α : Type} {r : Run α} {p : α → ValueSpec → Payload}
    (h : (r.andThen fun a => .ofExcept (.ok (produce signature (p a)))).outcome = .ok outputs) :
    outputs.map Value.spec = signature.output := by
  obtain ⟨a, _, h⟩ := Run.exists_of_andThen_eq_ok h
  cases h
  exact map_spec_produce signature (p a)

theorem map_spec_of_runTool_eq_ok {tools : Toolbox} {name : String} {input : List Value}
    (h : (runTool signature tools name input).outcome = .ok outputs) :
    outputs.map Value.spec = signature.output := by
  unfold runTool at h
  split at h
  · cases h
  · exact map_spec_of_produce h

/-- A fetch gives declared values. -/
theorem sublist_of_runHttp_eq_ok {fetch : Fetch} {input : List Value}
    (h : (runHttp id signature fetch input).outcome = .ok outputs) :
    (outputs.map Value.spec).Sublist signature.output := by
  obtain ⟨request, _, h⟩ := Run.exists_of_andThen_eq_ok h
  obtain ⟨answer, _, h⟩ := Run.exists_of_andThen_eq_ok h
  cases h
  exact ValueSet.map_spec_project_sublist _ _

end Executable

/-- What is given place by place within bounds is within them one after the other. -/
theorem sublist_flatMap_of_forall₂ {α β γ : Type} {f : α → List γ} {g : β → γ} {l : List α}
    {l' : List (List β)} (h : List.Forall₂ (fun a given => (given.map g).Sublist (f a)) l l') :
    (l'.flatten.map g).Sublist (l.flatMap f) := by
  induction h with
  | nil => exact .slnil
  | cons hab _ ih =>
    rw [List.flatten_cons, List.map_append, List.flatMap_cons]
    exact hab.append ih

namespace Module

variable {r : Resolver} {policy : InputPolicy} {id : ModuleId} {signature : Signature}

/-- A fan-out of branches whose results fulfil what the branches promise. -/
theorem gives_parallel {branches : List Module} {results : List (List Value)}
    (h : List.Forall₂ (fun b given => b.Gives policy given) branches results) :
    (mk id signature (.parallel branches)).Gives policy
      (results.flatten.filter fun v => signature.declaresOutput v.name) where
  declared := fun v hv => by
    have hdeclares := (List.mem_filter.1 hv).2
    exact Signature.any_name_iff.1 hdeclares
  ordered := fun horder => by
    cases horder with
    | parallel hbranches horder =>
      have hgiven := sublist_flatMap_of_forall₂ (forall₂_imp_of_mem h
        fun b hb given _ hgives => hgives.ordered (hbranches b hb))
      have hfiltered := hgiven.filter fun spec => signature.declaresOutput spec.name
      rw [List.filter_map] at hfiltered
      exact hfiltered.trans horder
    | project hparallel _ => exact absurd rfl hparallel
  all := fun n hn hgives => by
    cases hn with
    | self => cases hgives

/-- In whatever way a compiled module runs, what it gives fulfils what it promises. -/
theorem Compiled.gives {m : Module} (hm : m.Compiled r) {x : Executable}
    (hx : m.RunsAs (fun c => c.policy = policy) x) {input outputs : List Value}
    (h : (x.run input).outcome = .ok outputs) : m.Gives policy outputs := by
  refine RunsAs.induct (Q := fun m x => m.Compiled r → ∀ input outputs,
    (x.run input).outcome = .ok outputs → m.Gives policy outputs) ?_ hx hm input outputs h
  intro id signature kind c schedule kind' hc hrel hm input outputs h
  subst hc
  cases hrel with
  | sequential _ => exact Executable.gives_runSequential h
  | @parallel branches branches' hbranches =>
    obtain ⟨results, hresults, rfl⟩ := Executable.exists_of_runParallelBy_eq_ok h
    apply gives_parallel
    refine forall₂_imp_of_mem (forall₂_comp hbranches hresults) ?_
    rintro b hb given _ ⟨y, ⟨_, ih⟩, taken, _, hgiven⟩
    exact ih (hm.child b hb) taken given hgiven
  | switch condition _ _ =>
    exact .of_sublist nofun (Executable.sublist_of_runSwitch_eq_ok h) nofun
  | subWorkflow hcallee =>
    obtain ⟨hcompiled, _, houtput⟩ := hm.callee
    exact (hcallee.2 hcompiled input outputs h).call houtput
  | llm template => exact .of_eq nofun (Executable.map_spec_of_produce h)
  | tool name => exact .of_eq nofun (Executable.map_spec_of_runTool_eq_ok h)
  | http => exact .of_sublist nofun (Executable.sublist_of_runHttp_eq_ok h) nofun
  | jsonExtract path => exact .of_eq nofun (Executable.map_spec_of_produce h)

/-- The complete signature of a composite repeats no name on either side. -/
theorem nodup_composite {declared : Signature} (h : declared.ProperNames)
    (condition : Option String) (children : List Signature) :
    (declared.composite condition children).inputNames.Nodup ∧
      (declared.composite condition children).outputNames.Nodup where
  left := Signature.nodup_withCondition (Signature.nodup_deriveSide h.input_nodup _) condition
  right := Signature.nodup_deriveSide h.output_nodup _

/-- A compiled module declares no input and no output twice. -/
theorem Compiled.nodup_sides {m : Module} (hm : m.Compiled r) :
    m.signature.inputNames.Nodup ∧ m.signature.outputNames.Nodup := by
  induction m using induct with
  | step id signature kind _ htarget =>
    obtain ⟨declared, target, hproper, hsignature⟩ := hm.exists_declared
    rw [signature_mk]
    cases kind with
    | subWorkflow callee =>
      obtain ⟨hcallee, hinput, houtput⟩ := hm.callee
      rw [Signature.inputNames, Signature.outputNames, hinput, houtput]
      exact htarget callee rfl hcallee
    | sequential _ | llm _ | tool _ =>
      rw [hsignature]
      exact ⟨hproper.input_nodup, hproper.output_nodup⟩
    | parallel _ | switch _ _ _ =>
      rw [hsignature]
      exact nodup_composite hproper _ _
    | http =>
      rw [hsignature, Signature.completed]
      split
      · decide
      · exact ⟨hproper.input_nodup, hproper.output_nodup⟩
    | jsonExtract path =>
      rw [hsignature, Signature.completed]
      split
      · decide
      · exact ⟨hproper.input_nodup, hproper.output_nodup⟩

/-- Declared values in the order of their declarations have different names. -/
theorem Compiled.nodup_names {m : Module} (hm : m.Compiled r) {outputs : List Value}
    (h : (outputs.map Value.spec).Sublist m.signature.output) :
    (outputs.map Value.name).Nodup := by
  have hnames := (h.map ValueSpec.name).nodup hm.nodup_sides.2
  rwa [List.map_map] at hnames

/-- What a compiled module gives when it runs, in whatever order branches end and whatever each call
of a capability is answered with:

1. the name of every output is declared in the complete signature;
2. unless the module is a fan-out or leads to one by references, the outputs are declared values in
   the order of their declarations, each at most once;
3. if it is or leads to a text generation, a tool call, an extraction, or, under the strict policy,
   a sequence, they are all declared values. -/
theorem outputs_of_compiled {cache : CompileCache} (hcache : cache.Sound r) {depth : Nat}
    {s : ModuleSpec} {m : Module} (hm : (s.compileWith (r.compileAt depth) cache).1 = .ok m)
    {x : Executable} (hx : m.RunsAs (fun c => c.policy = policy) x) {input outputs : List Value}
    (h : (x.run input).outcome = .ok outputs) :
    (∀ v ∈ outputs, v.name ∈ m.signature.outputNames) ∧
    ((∀ n, m.LeadsTo n → n.type ≠ .parallel) →
      (outputs.map Value.spec).Sublist m.signature.output ∧ (outputs.map Value.name).Nodup) ∧
    ∀ n, m.LeadsTo n → n.kind.GivesAll policy → outputs.map Value.spec = m.signature.output := by
  have hcompiled : m.Compiled r := ⟨s, Resolver.yields_of_compileWith_eq_ok hcache hm⟩
  have hgives := hcompiled.gives hx h
  refine ⟨hgives.declared, ?_, hgives.all⟩
  intro hleads
  have hsublist := hgives.ordered (.of_leadsTo hleads)
  exact ⟨hsublist, hcompiled.nodup_names hsublist⟩

/-- Under the strict policy a sequence of one tool call gives the value that it declares. -/
theorem outputs_sequence_strict :
    let answer : Signature := .ofSides [] [.required "answer" .integer]
    let ping : Tool := .ofFunction "ping" fun _ => .ok (.integer 1)
    let c : Context := { Context.new "run" with tools := .ofList [ping], policy := .strict }
    let call : ModuleSpec := .mk "call" answer (.tool "ping")
    let main : ModuleSpec := .mk "main" answer (.sequential [⟨call, .empty⟩])
    let compiled : Module :=
      .mk "main" answer (.sequential [⟨.mk "call" answer (.tool "ping"), .empty⟩])
    (main.compileWith (Resolver.compileAt .empty 0) .empty).1 = .ok compiled ∧
      (compiled.run c []).outcome = .ok [⟨.required "answer" .integer, .integer 1⟩] ∧
      [(⟨.required "answer" .integer, .integer 1⟩ : Value)].map Value.spec = answer.output := by
  intro answer ping c call main compiled
  have hcompiles : (main.compileWith (Resolver.compileAt .empty 0) .empty).1 = .ok compiled := rfl
  have hrun : (compiled.run c []).outcome = .ok [⟨.required "answer" .integer, .integer 1⟩] := rfl
  have hway : compiled.RunsAs (fun d => d.policy = .strict) (compiled.executable c) :=
    runsAs_executable (P := fun d => d.policy = .strict) rfl compiled
  obtain ⟨_, _, hall⟩ := outputs_of_compiled (CompileCache.sound_empty .empty) hcompiles hway hrun
  exact ⟨hcompiles, hrun, hall compiled (.self compiled) rfl⟩

end Module

end WorkflowEngine
