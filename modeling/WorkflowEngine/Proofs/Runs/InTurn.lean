import WorkflowEngine.Proofs.Runs.FanOuts
import WorkflowEngine.Proofs.Runs.Schedules

/-!
# Branches one after the other

Branches that run at the same time all draw on the same values, while steps that run one after the
other also draw on what the steps before have given. If no branch gives what a later one takes, that
makes no difference: under the lenient policy a sequence of the branches ends as a sequence whose
one step is the fan-out of them, with the same outputs or with the error of the same branch.
-/

namespace WorkflowEngine

namespace ValueSet

/-- Among projected values a name is bound to what it was bound to, under its first declaration. -/
theorem get?_project (s : ValueSet) (specs : List ValueSpec) (name : String) :
    (ValueSet.mk (s.project specs)).get? name =
      (specs.find? fun t => t.name == name).bind fun t =>
        (s.get? name).map fun v => v.rebind t := by
  induction specs with
  | nil => rfl
  | cons spec rest ih =>
    rw [← resolved_empty, resolved_cons, resolved_empty, sourceName_empty]
    rw [List.find?_cons]
    by_cases hname : spec.name = name
    · subst hname
      rw [beq_self_eq_true, Option.bind_some]
      cases hv : s.get? spec.name with
      | none =>
        -- What the declarations after it would find is not bound either.
        rw [hv] at ih
        simpa using ih
      | some v => simp [get?, Value.name, Value.rebind]
    · rw [beq_false_of_ne hname, ← ih]
      cases s.get? spec.name with
      | none => rfl
      | some v => simp [get?, Value.name, Value.rebind, hname]

/-- What is projected from projected values is what is projected from all, if the declarations
projected first have every name. -/
theorem project_project {s : ValueSet} {wide specs : List ValueSpec}
    (h : ∀ spec ∈ specs, spec.name ∈ wide.map ValueSpec.name) :
    (ValueSet.mk (s.project wide)).project specs = s.project specs := by
  apply List.filterMap_congr
  intro spec hspec
  obtain ⟨t, ht⟩ : ∃ t, (wide.find? fun t => t.name == spec.name) = some t := by
    rw [← Option.isSome_iff_exists, List.find?_isSome]
    obtain ⟨t, hmem, hname⟩ := List.mem_map.1 (h spec hspec)
    exact ⟨t, hmem, beq_iff_eq.2 hname⟩
  rw [get?_project, ht, Option.bind_some, Option.map_map]
  rfl

/-- Merging values whose names are not declared changes nothing about what is projected. -/
theorem project_mergeAll {s : ValueSet} {values : List Value} {specs : List ValueSpec}
    (h : ∀ v ∈ values, v.name ∉ specs.map ValueSpec.name) :
    (s.mergeAll values).project specs = s.project specs := by
  apply List.filterMap_congr
  intro spec hspec
  have hnone : (values.reverse.find? fun v => v.name == spec.name) = none := by
    rw [List.find?_eq_none]
    intro v hv hname
    apply h v (List.mem_reverse.1 hv)
    rw [beq_iff_eq.1 hname]
    exact List.mem_map_of_mem hspec
  rw [get?_mergeAll, hnone, Option.none_or]

/-- Values may be merged in two goes. -/
theorem mergeAll_append (s : ValueSet) (values more : List Value) :
    s.mergeAll (values ++ more) = (s.mergeAll values).mergeAll more := List.foldl_append

end ValueSet

/-- Whether an output of one signature has the name of an input of another. -/
def Signature.Feeds (s t : Signature) : Prop := ∃ name ∈ s.outputNames, name ∈ t.inputNames

namespace Executable

/-- Whether every output has a name that the signature declares. -/
def GivesDeclared (x : Executable) : Prop :=
  ∀ input outputs, (x.run input).outcome = .ok outputs →
    ∀ v ∈ outputs, v.name ∈ x.signature.outputNames

/-- What a child gives, or fails with, that draws on values under its own names. -/
def givenFrom (available : ValueSet) (child : Executable) : Except Error (List Value) :=
  (child.run (available.project child.signature.input)).outcome

variable {available : ValueSet} {branches : List Executable}

/-! ## One after the other -/

/-- A step without a mapping gives what it gives from the values at hand, and its outputs are merged
into them. -/
theorem outcome_runSteps_cons (child : Executable) (rest : List (Step Executable))
    (current : ValueSet) :
    (runSteps .lenient (⟨child, .empty⟩ :: rest) current).outcome =
      child.givenFrom current >>= fun outputs =>
        (runSteps .lenient rest (current.mergeAll outputs)).outcome := by
  rw [runSteps, Run.outcome_andThen, resolveAndInvoke, resolveInputs_lenient, resolved_empty]
  rfl

/-- Under the lenient policy a sequence ends as its steps do, with the declared ones among the
values gathered. -/
theorem outcome_runSequential_lenient (id : ModuleId) (signature : Signature)
    (steps : List (Step Executable)) (input : List Value) :
    (runSequential id signature .lenient steps input).outcome =
      (runSteps .lenient steps ⟨input⟩).outcome.map fun current =>
        current.project signature.output := by
  rw [runSequential, Run.outcome_andThen]
  cases (runSteps .lenient steps ⟨input⟩).outcome <;> rfl

/-- What a child gives does not change by values that are merged whose names it does not take. -/
theorem givenFrom_mergeAll {child : Executable} {values : List Value}
    (h : ∀ v ∈ values, v.name ∉ child.signature.inputNames) :
    child.givenFrom (available.mergeAll values) = child.givenFrom available := by
  rw [givenFrom, ValueSet.project_mergeAll h]
  rfl

/-- Steps of which none gives what a later one takes give what they give from the values at the
outset, and all of it is merged. -/
theorem outcome_runSteps_of_apart (hgives : ∀ b ∈ branches, b.GivesDeclared)
    (hapart : branches.Pairwise fun b b' => ¬ b.signature.Feeds b'.signature)
    (current : ValueSet) :
    (runSteps .lenient (branches.map fun b => ⟨b, .empty⟩) current).outcome =
      (branches.mapM (givenFrom current)).map fun results =>
        current.mergeAll results.flatten := by
  induction branches generalizing current with
  | nil => rfl
  | cons b rest ih =>
    rw [List.forall_mem_cons] at hgives
    rw [List.pairwise_cons] at hapart
    rw [List.map_cons, outcome_runSteps_cons, List.mapM_cons]
    cases hb : b.givenFrom current with
    | error e => rfl
    | ok outputs =>
      have hsame : ∀ b' ∈ rest, givenFrom (current.mergeAll outputs) b' = givenFrom current b' := by
        intro b' hb'
        apply givenFrom_mergeAll
        intro v hv hname
        exact hapart.1 b' hb' ⟨v.name, hgives.1 _ outputs hb v hv, hname⟩
      have hrest := ih hgives.2 hapart.2 (current.mergeAll outputs)
      rw [mapM_congr hsame] at hrest
      refine hrest.trans ?_
      cases rest.mapM (givenFrom current) with
      | error e => rfl
      | ok results =>
        have hmerge := ValueSet.mergeAll_append current outputs results.flatten
        exact congrArg Except.ok hmerge.symm

/-! ## At the same time -/

/-- Under the lenient policy every branch is ready, with what is bound to its inputs. -/
theorem resolveBranches_lenient (available : ValueSet) (branches : List Executable) :
    resolveBranches .lenient available branches =
      .ok (branches.map fun b => (b, available.project b.signature.input)) := by
  induction branches with
  | nil => rfl
  | cons b rest ih =>
    rw [resolveBranches, resolveInputs_lenient, ih]
    rfl

/-- Outcomes are joined by taking the first error, or the results one after the other. -/
theorem joinFrom_eq_mapM (id : ModuleId) (place : Nat) (runs : List (Run (List Value))) :
    joinFrom id place (runs.map fun r => some r.outcome) =
      (runs.mapM Run.outcome).map List.flatten := by
  induction runs generalizing place with
  | nil => rfl
  | cons r rest ih =>
    rw [List.map_cons, List.mapM_cons]
    cases hr : r.outcome with
    | error e => rfl
    | ok given =>
      rw [joinFrom, ih]
      cases rest.mapM Run.outcome <;> rfl

/-- Under the lenient policy a fan-out ends with the first error of a branch, or with the declared
ones among what the branches give. -/
theorem outcome_runParallel_lenient (id : ModuleId) (signature : Signature)
    (branches : List Executable) (input : List Value) :
    (runParallel id signature .lenient branches input).outcome =
      (branches.mapM (givenFrom ⟨input⟩)).map fun results =>
        results.flatten.filter fun v => signature.declaresOutput v.name := by
  have hready := resolveBranches_lenient ⟨input⟩ branches
  have hruns : (branchRuns ⟨input⟩ (branches.map fun b =>
      (b, (ValueSet.mk input).project b.signature.input))).mapM Run.outcome =
      branches.mapM (givenFrom ⟨input⟩) := by
    rw [branchRuns, List.map_map, List.mapM_map]
    rfl
  rw [(runParallel_of_ready id signature hready).1, joinFrom_eq_mapM, hruns]
  cases branches.mapM (givenFrom ⟨input⟩) <;> rfl

/-- A fan-out that declares what its branches take and give, as the one step of a sequence, gives
what the branches give from the values at the outset, and all of it is merged. -/
theorem outcome_runSteps_fanOut (id : ModuleId) {signature : Signature}
    (hgives : ∀ b ∈ branches, b.GivesDeclared)
    (hinput : ∀ b ∈ branches, b.signature.inputNames ⊆ signature.inputNames)
    (houtput : ∀ b ∈ branches, b.signature.outputNames ⊆ signature.outputNames)
    (current : ValueSet) :
    (runSteps .lenient [⟨⟨id, .parallel, signature, runParallel id signature .lenient branches⟩,
        .empty⟩] current).outcome =
      (branches.mapM (givenFrom current)).map fun results =>
        current.mergeAll results.flatten := by
  have hsame : ∀ b ∈ branches,
      givenFrom ⟨current.project signature.input⟩ b = givenFrom current b := by
    intro b hb
    rw [givenFrom, ValueSet.project_project fun spec hspec =>
      hinput b hb (List.mem_map_of_mem hspec)]
    rfl
  rw [outcome_runSteps_cons, givenFrom, outcome_runParallel_lenient, mapM_congr hsame]
  cases hresults : branches.mapM (givenFrom current) with
  | error e => rfl
  | ok results =>
    have hall := mapM_eq_ok_iff.1 hresults
    have hdeclared : ∀ v ∈ results.flatten, signature.declaresOutput v.name = true := by
      intro v hv
      obtain ⟨given, hgiven, hv⟩ := List.mem_flatten.1 hv
      obtain ⟨b, hb, houtcome⟩ := exists_mem_of_forall₂ hall hgiven
      have hname := hgives b hb _ given houtcome v hv
      exact Signature.any_name_iff.2 (houtput b hb hname)
    have hfilter : (results.flatten.filter fun v => signature.declaresOutput v.name) =
        results.flatten := List.filter_eq_self.2 hdeclared
    rw [Except.map, hfilter]
    rfl

end Executable

namespace Signature

/-- A side that is derived has the names of every child. -/
theorem subset_deriveSide_nil {children : List (List ValueSpec)} {side : List ValueSpec}
    (h : side ∈ children) :
    side.map ValueSpec.name ⊆ (deriveSide [] children).map ValueSpec.name := by
  intro name hname
  obtain ⟨spec, hspec, rfl⟩ := List.mem_map.1 hname
  have hfound : ((deriveSide [] children).find? fun t => t.name == spec.name).isSome = true := by
    rw [find?_deriveSide_nil, List.find?_isSome]
    exact ⟨spec, List.mem_flatten.2 ⟨side, h, hspec⟩, beq_self_eq_true _⟩
  rw [← any_name_iff, List.any_eq_true]
  exact List.find?_isSome.1 hfound

/-- What is put in front of inputs leaves them there. -/
theorem subset_withCondition (condition : Option String) (input : List ValueSpec) :
    input ⊆ withCondition condition input := by
  unfold withCondition
  split
  · split
    · exact List.Subset.refl input
    · exact List.subset_cons_self _ input
  · exact List.Subset.refl input

/-- A composite that declares nothing has the names of every child. -/
theorem names_subset_composite {declared : Signature} (hdeclared : declared.isEmpty = true)
    (condition : Option String) {children : List Signature} {s : Signature} (hs : s ∈ children) :
    s.inputNames ⊆ (declared.composite condition children).inputNames ∧
      s.outputNames ⊆ (declared.composite condition children).outputNames := by
  obtain ⟨input, output, dependencies⟩ := declared
  simp only [isEmpty, Bool.and_eq_true, List.isEmpty_iff] at hdeclared
  obtain ⟨rfl, rfl⟩ := hdeclared
  have hinput := subset_deriveSide_nil (List.mem_map_of_mem (f := Signature.input) hs)
  have houtput := subset_deriveSide_nil (List.mem_map_of_mem (f := Signature.output) hs)
  refine ⟨fun name hname => ?_, houtput⟩
  exact List.map_subset _ (subset_withCondition condition _) (hinput hname)

end Signature

/-- To put each result into a form is to put all results into that form. -/
theorem mapM_map_result {m : Type → Type} [Monad m] [LawfulMonad m] {α β γ : Type} (f : α → m β)
    (g : β → γ) (items : List α) :
    (items.mapM fun a => g <$> f a) = List.map g <$> items.mapM f := by
  induction items with
  | nil => simp
  | cons a rest ih => simp [List.mapM_cons, ih]

namespace ModuleSpec

/-- A sequence whose one step is a fan-out. -/
def atOnce (id inner : ModuleId) (signature declared : Signature) (branches : List ModuleSpec) :
    ModuleSpec :=
  .mk id signature (.sequential [⟨.mk inner declared (.parallel branches), .empty⟩])

/-- A sequence of the branches. -/
def inTurn (id : ModuleId) (signature : Signature) (branches : List ModuleSpec) : ModuleSpec :=
  .mk id signature (.sequential (branches.map fun b => ⟨b, .empty⟩))

end ModuleSpec

namespace Module

/-- What a sequence compiles to whose one step is a fan-out, given what the branches compile to. -/
def atOnce (id inner : ModuleId) (signature declared : Signature) (branches : List Module) :
    Module :=
  .mk id signature (.sequential [⟨.mk inner
    (declared.composite none (branches.map Module.signature)) (.parallel branches), .empty⟩])

/-- What a sequence of branches compiles to, given what the branches compile to. -/
def inTurn (id : ModuleId) (signature : Signature) (branches : List Module) : Module :=
  .mk id signature (.sequential (branches.map fun b => ⟨b, .empty⟩))

end Module

namespace ModuleSpec

variable {m : Type → Type} [Monad m] [LawfulMonad m] [MonadExcept CompileFailure m]
  (reference : ModuleId → m Module) (id : ModuleId) (signature : Signature)
  (branches : List ModuleSpec)

/-- The branches are compiled in their order. -/
theorem compileWith_inTurn :
    (inTurn id signature branches).compileWith reference =
      ofExcept (signature.check id) >>= fun _ =>
        branches.mapM (compileWith reference) >>= fun compiled =>
          pure (.inTurn id signature compiled) := by
  rw [compileWith, inTurn, fold_mk, compileNode]
  simp only [compileKind, Kind.map, List.mapM_map, Function.comp_def, bind_pure_comp,
    mapM_map_result, Functor.map_map]
  rfl

/-- So they are in a fan-out. -/
theorem compileWith_atOnce (inner : ModuleId) {declared : Signature}
    (hdeclared : declared.isEmpty = true) :
    (atOnce id inner signature declared branches).compileWith reference =
      ofExcept (signature.check id) >>= fun _ =>
        branches.mapM (compileWith reference) >>= fun compiled =>
          pure (.atOnce id inner signature declared compiled) := by
  have hcheck : declared.check inner = .ok () := by
    obtain ⟨input, output, dependencies⟩ := declared
    simp only [Signature.isEmpty, Bool.and_eq_true, List.isEmpty_iff] at hdeclared
    obtain ⟨rfl, rfl⟩ := hdeclared
    rfl
  rw [compileWith, atOnce, fold_mk, compileNode]
  simp only [compileKind, Kind.map, List.map_cons, List.map_nil, fold_mk, compileNode, hcheck,
    ofExcept, pure_bind, List.mapM_cons, List.mapM_nil, List.mapM_map, Function.comp_def,
    bind_pure_comp, map_pure, Functor.map_map]
  rfl

end ModuleSpec

namespace Module

variable {r : Resolver} {c : Context} {branches : List Module}

/-- A compiled module gives values under declared names only. -/
theorem Compiled.givesDeclared {m : Module} (hm : m.Compiled r) (c : Context) :
    (m.executable c).GivesDeclared := by
  intro input outputs houtputs v hv
  have hway : m.RunsAs (fun d => d.policy = c.policy) (m.executable c) :=
    runsAs_executable (P := fun d => d.policy = c.policy) rfl m
  rw [signature_executable]
  exact (hm.gives hway houtputs).declared v hv

/-- What a sequence ends with whose steps have gathered results. -/
def gathered (signature : Signature) (input : List Value)
    (results : Except Error (List (List Value))) : Except Error (List Value) :=
  results.map fun results => ((ValueSet.mk input).mergeAll results.flatten).project signature.output

/-- What sequences end with that gather the same is the same. -/
theorem outcome_runSequential_of_gathered {id : ModuleId} {signature : Signature}
    {steps : List (Step Executable)} {input : List Value}
    {results : Except Error (List (List Value))}
    (h : (Executable.runSteps .lenient steps ⟨input⟩).outcome =
      results.map fun results => (ValueSet.mk input).mergeAll results.flatten) :
    (Executable.runSequential id signature .lenient steps input).outcome =
      gathered signature input results := by
  rw [Executable.outcome_runSequential_lenient, h]
  cases results <;> rfl

variable (hcompiled : ∀ b ∈ branches, b.Compiled r)
include hcompiled

theorem givesDeclared_of_mem : ∀ x ∈ branches.map (executable c), x.GivesDeclared := by
  intro x hx
  obtain ⟨b, hb, rfl⟩ := List.mem_map.1 hx
  exact (hcompiled b hb).givesDeclared c

/-- The branches one after the other give what they give from the input. -/
theorem outcome_run_inTurn
    (hapart : branches.Pairwise fun b b' => ¬ b.signature.Feeds b'.signature)
    (hc : c.policy = .lenient) (id : ModuleId) (signature : Signature) (input : List Value) :
    ((inTurn id signature branches).run c input).outcome = gathered signature input
      ((branches.map (executable c)).mapM (Executable.givenFrom ⟨input⟩)) := by
  have hapart' : (branches.map (executable c)).Pairwise fun x y =>
      ¬ x.signature.Feeds y.signature := by
    rw [List.pairwise_map]
    simpa only [signature_executable] using hapart
  have hsteps := Executable.outcome_runSteps_of_apart (givesDeclared_of_mem hcompiled) hapart'
    ⟨input⟩
  have hrun : (inTurn id signature branches).run c input = Executable.runSequential id signature
      c.policy ((branches.map (executable c)).map fun b => ⟨b, .empty⟩) input := by
    rw [run, executable, inTurn, fold_mk, Kind.map, List.map_map, List.map_map]
    rfl
  rw [hrun, hc]
  exact outcome_runSequential_of_gathered hsteps

/-- So they do at the same time. -/
theorem outcome_run_atOnce (hc : c.policy = .lenient) (id inner : ModuleId) (signature : Signature)
    {declared : Signature} (hdeclared : declared.isEmpty = true) (input : List Value) :
    ((atOnce id inner signature declared branches).run c input).outcome = gathered signature input
      ((branches.map (executable c)).mapM (Executable.givenFrom ⟨input⟩)) := by
  have hnames : ∀ x ∈ branches.map (executable c),
      x.signature.inputNames ⊆
          (declared.composite none (branches.map Module.signature)).inputNames ∧
        x.signature.outputNames ⊆
          (declared.composite none (branches.map Module.signature)).outputNames := by
    intro x hx
    obtain ⟨b, hb, rfl⟩ := List.mem_map.1 hx
    rw [signature_executable]
    exact Signature.names_subset_composite hdeclared none (List.mem_map_of_mem hb)
  have hsteps := Executable.outcome_runSteps_fanOut inner (givesDeclared_of_mem hcompiled)
    (fun x hx => (hnames x hx).1) (fun x hx => (hnames x hx).2) ⟨input⟩
  have hrun : (atOnce id inner signature declared branches).run c input =
      Executable.runSequential id signature c.policy [⟨⟨inner, .parallel,
        declared.composite none (branches.map Module.signature),
        Executable.runParallel inner (declared.composite none (branches.map Module.signature))
          c.policy (branches.map (executable c))⟩, .empty⟩] input := by
    rw [run, executable, atOnce, fold_mk, Kind.map, List.map_singleton, fold_mk]
    rfl
  rw [hrun, hc]
  exact outcome_runSequential_of_gathered hsteps

end Module

/-! ## Compiled sequences -/

namespace ModuleSpec

variable {r : Resolver} {cache cache' : CompileCache} {depth : Nat} {branches : List ModuleSpec}
  {compiled : List Module} {id : ModuleId} {signature : Signature} {form : List Module → Module}

/-- A signature whose names are proper lets what has been compiled be put into its form. -/
theorem compiles_of_properNames (hproper : signature.ProperNames)
    (hbranches : (branches.mapM (compileWith (r.compileAt depth)) : Compiling (List Module)) cache =
      (.ok compiled, cache')) :
    (ofExcept (signature.check id) >>= fun _ =>
      branches.mapM (compileWith (r.compileAt depth)) >>= fun compiled =>
        pure (form compiled) : Compiling Module) cache = (.ok (form compiled), cache') := by
  have hcheck : (ofExcept (signature.check id) : Compiling Unit) cache = (.ok (), cache) := by
    rw [Signature.check_eq_ok_iff_properNames.2 hproper]
    rfl
  rw [Compiling.bind_of_ok hcheck, Compiling.bind_of_ok hbranches]
  rfl

/-- Any other signature fails. -/
theorem fails_of_not_properNames (hnot : ¬ signature.ProperNames) (next : Unit → Compiling Module) :
    ∃ e, ((ofExcept (signature.check id) >>= next : Compiling Module) cache).1 = .error e := by
  cases hcheck : signature.check id with
  | ok u => exact absurd (Signature.check_eq_ok_iff_properNames.1 hcheck) hnot
  | error e => exact ⟨.error e, rfl⟩

/-- Branches that compile one after the other are compiled modules. -/
theorem compiled_of_mapM (hcache : cache.Sound r)
    (hbranches : (branches.mapM (compileWith (r.compileAt depth)) : Compiling (List Module)) cache =
      (.ok compiled, cache')) : ∀ b ∈ compiled, b.Compiled r := by
  have hproper : Signature.empty.ProperNames := Signature.check_eq_ok_iff_properNames.1
    (show Signature.empty.check "" = .ok () from rfl)
  have hcompiles := congrArg (fun x => (x cache).1)
    (compileWith_inTurn (r.compileAt depth) "" .empty branches)
  rw [compiles_of_properNames hproper hbranches] at hcompiles
  have hsequence : (Module.inTurn "" .empty compiled).Compiled r :=
    ⟨_, Resolver.yields_of_compileWith_eq_ok hcache hcompiles⟩
  intro b hb
  apply hsequence.child b
  rw [Kind.children, List.map_map]
  exact List.mem_map.2 ⟨b, hb, rfl⟩

/-- A fan-out without a signature of its own, as the one step of a sequence, and the sequence of its
branches amount to the same under the lenient policy, if no branch declares an output that has the
name of an input of a later one:

1. if the signature of the sequences is proper, both compile, and leave the same behind;
2. if it is not, neither of them compiles;
3. in whatever order branches end, in surroundings that answer alike, both end with the same outputs
   or with the same error on every input. -/
theorem run_atOnce_eq_run_inTurn (hcache : cache.Sound r)
    (hbranches : (branches.mapM (compileWith (r.compileAt depth)) : Compiling (List Module)) cache =
      (.ok compiled, cache'))
    (hapart : compiled.Pairwise fun b b' => ¬ b.signature.Feeds b'.signature)
    (id id' inner : ModuleId) (signature : Signature) {declared : Signature}
    (hdeclared : declared.isEmpty = true) :
    (signature.ProperNames →
      (atOnce id inner signature declared branches).compileWith (r.compileAt depth) cache =
          (.ok (.atOnce id inner signature declared compiled), cache') ∧
        (inTurn id' signature branches).compileWith (r.compileAt depth) cache =
          (.ok (.inTurn id' signature compiled), cache')) ∧
    (¬ signature.ProperNames →
      (∃ e, ((atOnce id inner signature declared branches).compileWith (r.compileAt depth)
          cache).1 = .error e) ∧
        ∃ e, ((inTurn id' signature branches).compileWith (r.compileAt depth) cache).1 =
          .error e) ∧
    ∀ c : Context, c.policy = .lenient →
      ∀ x, (Module.atOnce id inner signature declared compiled).RunsAs c.Alike x →
        ∀ y, (Module.inTurn id' signature compiled).RunsAs c.Alike y →
          ∀ input, (x.run input).outcome = (y.run input).outcome := by
  rw [compileWith_atOnce _ id signature branches inner hdeclared, compileWith_inTurn]
  refine ⟨?_, ?_, ?_⟩
  · intro hproper
    exact ⟨compiles_of_properNames hproper hbranches, compiles_of_properNames hproper hbranches⟩
  · intro hnot
    exact ⟨fails_of_not_properNames hnot _, fails_of_not_properNames hnot _⟩
  · intro c hc x hx y hy input
    have hcompiled := compiled_of_mapM hcache hbranches
    have hx' := (hx.matches_executable.run input).outcome.eq
    have hy' := (hy.matches_executable.run input).outcome.eq
    have hatOnce := Module.outcome_run_atOnce hcompiled hc id inner signature hdeclared input
    have hinTurn := Module.outcome_run_inTurn hcompiled hapart hc id' signature input
    calc (x.run input).outcome
        = ((Module.atOnce id inner signature declared compiled).run c input).outcome := hx'.symm
      _ = ((Module.inTurn id' signature compiled).run c input).outcome :=
          hatOnce.trans hinTurn.symm
      _ = (y.run input).outcome := hy'

/-- Two calls of one tool that take one input and give one output between them: at the same time
they give what they give one after the other. -/
theorem run_atOnce_sharing :
    let x : ValueSpec := .required "x" .any
    let y : ValueSpec := .required "y" .integer
    let declared : Signature := .ofSides [] [y]
    let compiled : List Module := [.mk "one" (.ofSides [x] [y]) (.tool "ping"),
      .mk "two" (.ofSides [⟨"x", .any, true⟩] [y]) (.tool "ping")]
    ((atOnce "main" "both" declared .empty [.tool "one" "ping" [x] y,
      .tool "two" "ping" [⟨"x", .any, true⟩] y]).compileWith (Resolver.compileAt .empty 0)
        .empty).1 = .ok (.atOnce "main" "both" declared .empty compiled) ∧
    ((Module.atOnce "main" "both" declared .empty compiled).run Module.pinging
      [⟨y, .integer 2⟩]).outcome = .ok [⟨y, .integer 1⟩] := by
  intro x y declared compiled
  have hbranches : ([.tool "one" "ping" [x] y, .tool "two" "ping" [⟨"x", .any, true⟩] y].mapM
      (compileWith (Resolver.compileAt .empty 0)) : Compiling (List Module)) .empty =
        (.ok compiled, .empty) := rfl
  have hapart : compiled.Pairwise fun b b' => ¬ b.signature.Feeds b'.signature := by
    unfold Signature.Feeds
    decide
  obtain ⟨hproper, -, hruns⟩ := run_atOnce_eq_run_inTurn (CompileCache.sound_empty .empty)
    hbranches hapart "main" "main" "both" declared
    (show Signature.empty.isEmpty = true from rfl)
  have hnames : declared.ProperNames := Signature.check_eq_ok_iff_properNames.1
    (show declared.check "main" = .ok () from rfl)
  refine ⟨congrArg Prod.fst (hproper hnames).1, ?_⟩
  exact hruns Module.pinging rfl _ (Module.runsAs_executable (.refl _) _) _
    (Module.runsAs_executable (.refl _) _) [⟨y, .integer 2⟩]

end ModuleSpec

end WorkflowEngine
