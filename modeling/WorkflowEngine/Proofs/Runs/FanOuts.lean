import WorkflowEngine.Proofs.Runs.Outputs

/-!
# What fan-outs give

A fan-out lists what its branches give, branch after branch and as they give it, without what its
own signature does not declare. This is the order of its signature only if the signature is in
order, which it is when it is derived from branches whose signatures are in order.
-/

namespace WorkflowEngine

namespace Module

variable {r : Resolver}

/-- A derived output side is in order if no two branches declare an output of one name. -/
theorem InOrder.of_derived {id : ModuleId} {declared : Signature} {branches : List Module}
    (hdeclared : declared.output = [])
    (hnames : (branches.flatMap fun b => b.signature.outputNames).Nodup)
    (hbranches : ∀ b ∈ branches, b.InOrder) :
    (mk id (declared.composite none (branches.map signature)) (.parallel branches)).InOrder := by
  have hflatten : ((branches.map signature).map Signature.output).flatten =
      branches.flatMap fun b => b.signature.output := by
    rw [List.map_map, List.flatMap_def]
    rfl
  have hdistinct : ((((branches.map signature).map Signature.output).flatten).map
      ValueSpec.name).Nodup := by
    rw [hflatten, List.map_flatMap]
    exact hnames
  refine .parallel hbranches ?_
  have houtput : (declared.composite none (branches.map signature)).output =
      branches.flatMap fun b => b.signature.output := by
    rw [Signature.composite, hdeclared, Signature.deriveSide_nil hdistinct, hflatten]
  rw [houtput]
  exact List.filter_sublist

/-- What a compiled fan-out gives whose branches declare no two outputs of one name, in whatever
order they end and whatever each call of a capability is answered with:

1. the outputs are what the branches give on the inputs resolved for them, one branch after the
   other in the order of the branches, without the values whose names the fan-out does not declare;
2. if the signature of the fan-out is in order, they are declared values in the order of their
   declarations, each at most once;
3. if the author has declared no outputs, and the signatures of the branches are in order, so is the
   signature of the fan-out. -/
theorem outputs_fanOut {cache : CompileCache} (hcache : cache.Sound r) {depth : Nat}
    {s : ModuleSpec} {m : Module} (hm : (s.compileWith (r.compileAt depth) cache).1 = .ok m)
    {branches : List Module} (hbranches : m.kind = .parallel branches)
    (hnames : (branches.flatMap fun b => b.signature.outputNames).Nodup) {policy : InputPolicy}
    {x : Executable} (hx : m.RunsAs (fun c => c.policy = policy) x) {input outputs : List Value}
    (h : (x.run input).outcome = .ok outputs) :
    (∃ results, List.Forall₂ (fun (b : Module) given => ∃ y taken,
        b.RunsAs (fun c => c.policy = policy) y ∧
        resolveInputs b.id .empty policy ⟨input⟩ b.signature.input = .ok taken ∧
        (y.run taken).outcome = .ok given) branches results ∧
      outputs = results.flatten.filter fun v => m.signature.declaresOutput v.name) ∧
    (m.InOrder →
      (outputs.map Value.spec).Sublist m.signature.output ∧ (outputs.map Value.name).Nodup) ∧
    (s.signature.output = [] → (∀ b ∈ branches, b.InOrder) → m.InOrder) := by
  have hyields : s.Yields r m := Resolver.yields_of_compileWith_eq_ok hcache hm
  have hcompiled : m.Compiled r := ⟨s, hyields⟩
  refine ⟨?_, ?_, ?_⟩
  · obtain ⟨id, signature, kind⟩ := m
    obtain rfl : kind = .parallel branches := hbranches
    obtain ⟨c, schedule, kind', rfl, hrel, rfl⟩ := runsAs_mk_iff.1 hx
    cases hrel with
    | parallel hways =>
      obtain ⟨results, hresults, houtputs⟩ := Executable.exists_of_runParallelBy_eq_ok h
      refine ⟨results, (forall₂_comp hways hresults).imp ?_, houtputs⟩
      rintro b given ⟨y, hway, taken, htaken, hgiven⟩
      rw [hway.id_eq, hway.signature_eq] at htaken
      exact ⟨y, taken, hway, htaken, hgiven⟩
  · intro horder
    have hsublist := (hcompiled.gives hx h).ordered horder
    exact ⟨hsublist, hcompiled.nodup_names hsublist⟩
  · intro hdeclared horder
    obtain ⟨id, declared, kind⟩ := s
    obtain ⟨_, kind', hrel, rfl⟩ := ModuleSpec.yields_mk_iff.1 hyields
    obtain rfl : kind' = .parallel branches := hbranches
    exact .of_derived hdeclared hnames horder

/-- Two calls of one tool, each with an output of its own. -/
def pings : List Module :=
  [.mk "one" (.ofSides [] [.required "one" .integer]) (.tool "ping"),
    .mk "two" (.ofSides [] [.required "two" .integer]) (.tool "ping")]

/-- The specification of a fan-out of the two calls. -/
def pingBoth (declared : Signature) : ModuleSpec :=
  .mk "both" declared (.parallel [.tool "one" "ping" [] (.required "one" .integer),
    .tool "two" "ping" [] (.required "two" .integer)])

/-- Surroundings in which the tool always gives the same number. -/
def pinging : Context :=
  { Context.new "run" with tools := .ofList [.ofFunction "ping" fun _ => .ok (.integer 1)] }

/-- Whatever the signature of the fan-out is, the outputs come in the order of the branches. -/
theorem run_pings (signature : Signature) :
    ((mk "both" signature (.parallel pings)).run pinging []).outcome =
      .ok ([⟨.required "one" .integer, .integer 1⟩, ⟨.required "two" .integer, .integer 1⟩].filter
        fun v => signature.declaresOutput v.name) := by
  have hready : Executable.resolveBranches pinging.policy ⟨[]⟩ (pings.map (executable pinging)) =
      .ok (pings.map fun b => (b.executable pinging, [])) := rfl
  exact (Executable.runParallel_of_ready "both" signature hready).1

/-- The two calls without a declared output side give what is derived, in its order. -/
theorem outputs_pings_derived :
    let both : Module := .mk "both" (Signature.empty.composite none (pings.map signature))
      (.parallel pings)
    ((pingBoth .empty).compileWith (Resolver.compileAt .empty 0) .empty).1 = .ok both ∧
      (both.run pinging []).outcome =
        .ok [⟨.required "one" .integer, .integer 1⟩, ⟨.required "two" .integer, .integer 1⟩] ∧
      both.signature.output = [.required "one" .integer, .required "two" .integer] ∧
      ([.required "one" .integer, .required "two" .integer].Sublist both.signature.output) := by
  intro both
  have hcompiles : ((pingBoth .empty).compileWith (Resolver.compileAt .empty 0) .empty).1 =
      .ok both := rfl
  have hrun : (both.run pinging []).outcome = .ok [⟨.required "one" .integer, .integer 1⟩,
      ⟨.required "two" .integer, .integer 1⟩] := run_pings both.signature
  have hnames : (pings.flatMap fun b => b.signature.outputNames).Nodup := by decide
  have hway : both.RunsAs (fun d => d.policy = .lenient) (both.executable pinging) :=
    runsAs_executable (P := fun d => d.policy = .lenient) rfl both
  obtain ⟨_, hordered, hderived⟩ := outputs_fanOut (CompileCache.sound_empty .empty) hcompiles rfl
    hnames hway hrun
  have hbranches : ∀ b ∈ pings, b.InOrder := by
    simp only [pings, List.forall_mem_cons, List.not_mem_nil, false_implies, implies_true, and_true]
    exact ⟨.project nofun nofun, .project nofun nofun⟩
  exact ⟨hcompiles, hrun, rfl, (hordered (hderived rfl hbranches)).1⟩

/-- With the output side declared in another order and with another type, the two calls still give
what they give on their own: neither in the order of the signature nor as it declares it. -/
theorem outputs_pings_swapped :
    let declared : Signature := .ofSides [] [.required "two" .any, .required "one" .any]
    let both : Module := .mk "both" declared (.parallel pings)
    ((pingBoth declared).compileWith (Resolver.compileAt .empty 0) .empty).1 = .ok both ∧
      (pings.flatMap fun b => b.signature.outputNames).Nodup ∧
      ∃ outputs, (both.run pinging []).outcome = .ok outputs ∧
        ¬ (outputs.map Value.name).Sublist both.signature.outputNames ∧
        ∀ v ∈ outputs, v.spec ∉ both.signature.output := by
  intro declared both
  have hcompiles : ((pingBoth declared).compileWith (Resolver.compileAt .empty 0) .empty).1 =
      .ok both := rfl
  exact ⟨hcompiles, by decide, _, run_pings declared, by decide, by decide⟩

end Module

end WorkflowEngine
