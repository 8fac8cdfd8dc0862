import WorkflowEngine.Proofs.Runs.Bindings
import WorkflowEngine.Proofs.Runs.InTurn
import WorkflowEngine.Proofs.Runs.Visits
import Mathlib.Algebra.GroupWithZero.Nat

/-!
# Fan-outs run all their branches or none

A fan-out resolves the inputs of all branches before it runs the first one. If that fails nothing
has happened. Otherwise each branch is run once and to its end, whatever comes of the others, and
their results are joined in the order of the branches, whatever the order in which they end. A
fan-out whose output side is derived declares whatever its branches may give, so that nothing is
left out.
-/

namespace WorkflowEngine

/-- A list of computations fails with the first of them that fails. -/
theorem mapM_eq_error {ε α β : Type} {f : α → Except ε β} {before : List α} {a : α} {e : ε}
    (hbefore : ∀ b ∈ before, ∃ given, f b = .ok given) (ha : f a = .error e) (after : List α) :
    (before ++ a :: after).mapM f = .error e := by
  induction before with
  | nil =>
    rw [List.nil_append, List.mapM_cons, ha]
    rfl
  | cons b rest ih =>
    obtain ⟨⟨given, hgiven⟩, hrest⟩ := List.forall_mem_cons.1 hbefore
    rw [List.cons_append, List.mapM_cons, hgiven, ih hrest]
    rfl

namespace Bindings

variable {b : Bindings}

/-- Inputs are not resolved under the strict policy if one lacks. -/
theorem resolve_of_lack {child : ModuleId} {mapping : Dictionary String} {specs : List ValueSpec}
    {spec : ValueSpec} (h : b.lack? mapping specs = some spec) :
    b.resolve child mapping .strict specs =
      .error (.unresolvedInput (child ++ "." ++ spec.name) (sourceName mapping spec)) := by
  unfold resolve
  rw [h]

/-- They are if none lacks, and under the lenient policy in any case. -/
theorem resolve_of_bound {child : ModuleId} {mapping : Dictionary String} {policy : InputPolicy}
    {specs : List ValueSpec} (h : policy = .strict → b.lack? mapping specs = none) :
    b.resolve child mapping policy specs = .ok (b.take mapping specs) := by
  cases policy with
  | lenient => rfl
  | strict =>
    unfold resolve
    rw [h rfl]

/-- The first declaration, in the order of several lists of inputs, that is required and to whose
name nothing is bound, with the name that stands with its list. -/
def firstLack? (b : Bindings) (sides : List (ModuleId × List ValueSpec)) :
    Option (ModuleId × ValueSpec) :=
  sides.findSome? fun side => (b.lack? .empty side.2).map fun spec => (side.1, spec)

/-- The first lack is that of the first side, if it lacks anything. -/
theorem firstLack?_cons (side : ModuleId × List ValueSpec)
    (rest : List (ModuleId × List ValueSpec)) :
    b.firstLack? (side :: rest) =
      ((b.lack? .empty side.2).map fun spec => (side.1, spec)).or (b.firstLack? rest) := by
  rw [firstLack?, List.findSome?_cons]
  cases b.lack? .empty side.2 <;> rfl

end Bindings

namespace Executable

variable {policy : InputPolicy}

/-- The name of a child and the inputs that it declares. -/
def inputSide (x : Executable) : ModuleId × List ValueSpec := (x.id, x.signature.input)

/-- Under the strict policy branches fail with the first input that lacks, in the order of the
branches and of their declarations. -/
theorem resolveBranches_of_lack (available : ValueSet) {branches : List Executable}
    {id : ModuleId} {spec : ValueSpec}
    (h : available.bindings.firstLack? (branches.map inputSide) = some (id, spec)) :
    resolveBranches .strict available branches =
      .error (.unresolvedInput (id ++ "." ++ spec.name) spec.name) := by
  induction branches with
  | nil => cases h
  | cons b rest ih =>
    rw [List.map_cons, Bindings.firstLack?_cons] at h
    rw [resolveBranches, resolveInputs_eq_resolve]
    cases hlack : available.bindings.lack? .empty b.signature.input with
    | some s =>
      simp only [inputSide, hlack, Option.map_some, Option.some_or, Option.some.injEq,
        Prod.mk.injEq] at h
      obtain ⟨rfl, rfl⟩ := h
      rw [Bindings.resolve_of_lack hlack]
      rfl
    | none =>
      simp only [inputSide, hlack, Option.map_none, Option.none_or] at h
      rw [Bindings.resolve_of_bound fun _ => hlack, ih h]
      rfl

/-- Branches of which none lacks an input are ready, and under the lenient policy all are. -/
theorem resolveBranches_of_bound {available : ValueSet} {branches : List Executable}
    (h : policy = .strict → available.bindings.firstLack? (branches.map inputSide) = none) :
    resolveBranches policy available branches =
      .ok (branches.map fun b => (b, available.bindings.take .empty b.signature.input)) := by
  induction branches with
  | nil => rfl
  | cons b rest ih =>
    simp only [List.map_cons, Bindings.firstLack?_cons, Option.or_eq_none_iff,
      Option.map_eq_none_iff] at h
    have hfirst : policy = .strict → available.bindings.lack? .empty b.signature.input = none :=
      fun hstrict => (h hstrict).1
    rw [resolveBranches, resolveInputs_eq_resolve, Bindings.resolve_of_bound hfirst,
      ih fun hstrict => (h hstrict).2]
    rfl

/-- What a fan-out that runs its branches makes of their runs, of which each has a visit. -/
structure Joins (signature : Signature) (visits : List Visit) (r : Run (List Value)) : Prop where
  /-- What happens is what happens in the branches, each from its beginning to its end. -/
  log : r.log.Perm (visits.flatMap fun v => v.run.log)
  /-- It ends with the longest of them. -/
  elapsed : r.elapsed = Run.longest (visits.map Visit.run)
  /-- It fails with the error of the first branch that fails. -/
  error : ∀ before v after e, visits = before ++ v :: after →
    (∀ u ∈ before, ∃ given, u.run.outcome = .ok given) → v.run.outcome = .error e →
      r.outcome = .error e
  /-- If none fails it gives the declared ones among their results, branch after branch. -/
  ok : ∀ results, List.Forall₂ (fun v given => v.run.outcome = .ok given) visits results →
    r.outcome = .ok (results.flatten.filter fun v => signature.declaresOutput v.name)

/-- A fan-out whose branches are ready has their logs, merged, and takes as long as the longest. -/
theorem log_runParallelBy_of_ready (schedule : Schedule) (id : ModuleId) (signature : Signature)
    {branches : List Executable} {input : List Value} {ready : List (Executable × List Value)}
    (hready : resolveBranches policy ⟨input⟩ branches = .ok ready) :
    let r := runParallelBy schedule id signature policy branches input
    r.log = Run.mergedLog (branchRuns ⟨input⟩ ready) ∧
      r.elapsed = Run.longest (branchRuns ⟨input⟩ ready) := by
  intro r
  have hr : r = (schedule.together (branchRuns ⟨input⟩ ready)).andThen fun arrivals => .ofExcept
      ((joinFrom id 0 (slots branches.length arrivals)).map
        (List.filter fun v => signature.declaresOutput v.name)) := by
    show (Run.ofExcept (resolveBranches policy ⟨input⟩ branches)).andThen _ = _
    rw [hready, Run.ofExcept_ok_andThen]
    rfl
  rw [hr, Run.andThen_ofExcept]
  exact ⟨rfl, rfl⟩

/-- A fan-out whose branches are ready joins their runs, whatever the schedule. -/
theorem joins_runParallelBy (schedule : Schedule) (id : ModuleId) (signature : Signature)
    {branches : List Executable} {input : List Value} {ready : List (Executable × List Value)}
    (hready : resolveBranches policy ⟨input⟩ branches = .ok ready) :
    Joins signature (ready.map fun r => ⟨r.1, .empty, ⟨input⟩, r.2⟩)
      (runParallelBy schedule id signature policy branches input) := by
  have houtcome := (runParallelBy_of_ready schedule id signature hready).1
  rw [joinFrom_eq_mapM] at houtcome
  have hruns : branchRuns ⟨input⟩ ready =
      (ready.map fun r => (⟨r.1, .empty, ⟨input⟩, r.2⟩ : Visit)).map Visit.run := by
    rw [branchRuns, List.map_map]
    rfl
  rw [hruns, List.mapM_map] at houtcome
  obtain ⟨hlog, helapsed⟩ := log_runParallelBy_of_ready schedule id signature hready
  rw [hruns] at hlog helapsed
  refine ⟨?_, helapsed, ?_, ?_⟩
  · rw [hlog, Run.mergedLog, List.flatMap_map]
    exact List.mergeSort_perm _ _
  · intro before v after e hvisits hbefore hv
    have hfirst : (before ++ v :: after).mapM (Run.outcome ∘ Visit.run) = .error e :=
      mapM_eq_error hbefore hv after
    rw [houtcome, hvisits, hfirst]
    rfl
  · intro results hresults
    have hall := mapM_eq_ok_iff (f := Run.outcome ∘ Visit.run).2 hresults
    rw [houtcome, hall]
    rfl

/-- A fan-out of which a branch lacks an input fails at once under the strict policy. -/
theorem runParallelBy_of_lack (schedule : Schedule) (name : ModuleId) (signature : Signature)
    {branches : List Executable} {input : List Value} {id : ModuleId} {spec : ValueSpec}
    (h : (Bindings.ofList input).firstLack? (branches.map inputSide) = some (id, spec)) :
    runParallelBy schedule name signature .strict branches input =
      .fail (.unresolvedInput (id ++ "." ++ spec.name) spec.name) := by
  unfold runParallelBy
  simp only [resolveBranches_of_lack ⟨input⟩ h]
  rfl

end Executable

namespace Module

variable {P : Context → Prop} {branches : List Module}

/-- A derived output side has the names of every branch. -/
theorem outputNames_subset_of_derived {declared : Signature} (h : declared.output = []) {b : Module}
    (hb : b ∈ branches) :
    b.signature.outputNames ⊆
      (declared.composite none (branches.map signature)).outputNames := by
  have hmem : b.signature.output ∈ (branches.map signature).map Signature.output :=
    List.mem_map_of_mem (List.mem_map_of_mem hb)
  rw [Signature.outputNames, Signature.outputNames, Signature.composite, h]
  exact Signature.subset_deriveSide_nil hmem

/-- Ways in which branches run have the names and the inputs of the branches. -/
theorem map_inputSide {ways : List Executable} (h : List.Forall₂ (RunsAs P) branches ways) :
    ways.map Executable.inputSide = branches.map fun b => (b.id, b.signature.input) := by
  induction h with
  | nil => rfl
  | cons hway _ ih =>
    rw [List.map_cons, List.map_cons, ih, Executable.inputSide, hway.id_eq, hway.signature_eq]

/-- The visit of a branch of a fan-out. -/
structure Visited (P : Context → Prop) (input : List Value) (b : Module) (v : Visit) : Prop where
  /-- The branch runs in a way of its own. -/
  way : b.RunsAs P v.child
  /-- Its inputs go by their own names. -/
  mapping : v.mapping = .empty
  /-- They are looked up in the input of the fan-out. -/
  available : v.available = ⟨input⟩
  /-- It is given its declared inputs as the input of the fan-out binds them. -/
  input : v.input = (Bindings.ofList input).take .empty b.signature.input

/-- A fan-out of which no branch lacks an input visits all of its branches and joins the visits. -/
theorem exists_joins_of_bound (schedule : Schedule) (id : ModuleId) (signature : Signature)
    {policy : InputPolicy} {ways : List Executable} {input : List Value}
    (hways : List.Forall₂ (RunsAs P) branches ways)
    (hbound : policy = .strict → (Bindings.ofList input).firstLack?
      (branches.map fun b => (b.id, b.signature.input)) = none) :
    ∃ visits, List.Forall₂ (Visited P input) branches visits ∧ Executable.Joins signature visits
      (Executable.runParallelBy schedule id signature policy ways input) := by
  have hready : Executable.resolveBranches policy ⟨input⟩ ways = .ok _ :=
    Executable.resolveBranches_of_bound fun hstrict => map_inputSide hways ▸ hbound hstrict
  have hjoins := Executable.joins_runParallelBy schedule id signature hready
  rw [List.map_map] at hjoins
  refine ⟨_, ?_, hjoins⟩
  rw [List.forall₂_map_right_iff]
  exact hways.imp fun b y hway => ⟨hway, rfl, rfl, hway.signature_eq ▸ rfl⟩

/-- What compiled branches give has names that a derived output side has. -/
theorem declares_of_derived {r : Resolver} {policy : InputPolicy} {input : List Value}
    {declared : Signature} (hdeclared : declared.output = [])
    (hcompiled : ∀ b ∈ branches, b.Compiled r) {visits : List Visit}
    (hvisits : List.Forall₂ (Visited (fun c => c.policy = policy) input) branches visits)
    {results : List (List Value)}
    (hresults : List.Forall₂ (fun v given => v.run.outcome = .ok given) visits results) :
    ∀ v ∈ results.flatten,
      (declared.composite none (branches.map signature)).declaresOutput v.name = true := by
  intro v hv
  obtain ⟨given, hgiven, hv⟩ := List.mem_flatten.1 hv
  obtain ⟨b, hb, visit, hvisited, hrun⟩ :=
    exists_mem_of_forall₂ (forall₂_comp hvisits hresults) hgiven
  have hname := ((hcompiled b hb).gives hvisited.way hrun).declared v hv
  exact Signature.any_name_iff.2 (outputNames_subset_of_derived hdeclared hb hname)

/-- A compiled fan-out on an input, in whatever order its branches end and whatever each call of a
capability is answered with:

1. under the strict policy, if a branch requires an input that is not bound, it fails at once for
   the first such input, in the order of the branches and of their declarations, and nothing
   happens;
2. otherwise every branch is visited, and the visits are joined: they all run to their ends, and the
   first branch that fails counts, or else what is declared of all that they give;
3. then, if the author has declared no outputs, nothing of what they give is left out. -/
theorem run_fanOut {r : Resolver} {cache : CompileCache} (hcache : cache.Sound r) {depth : Nat}
    {s : ModuleSpec} {m : Module} (hm : (s.compileWith (r.compileAt depth) cache).1 = .ok m)
    (hbranches : m.kind = .parallel branches) {policy : InputPolicy} {x : Executable}
    (hx : m.RunsAs (fun c => c.policy = policy) x) (input : List Value) :
    let lack? :=
      (Bindings.ofList input).firstLack? (branches.map fun b => (b.id, b.signature.input))
    (∀ id spec, policy = .strict → lack? = some (id, spec) →
      x.run input = .fail (.unresolvedInput (id ++ "." ++ spec.name) spec.name)) ∧
    ((policy = .strict → lack? = none) → ∃ visits,
      List.Forall₂ (Visited (fun c => c.policy = policy) input) branches visits ∧
      Executable.Joins m.signature visits (x.run input) ∧
      (s.signature.output = [] → ∀ results,
        List.Forall₂ (fun v given => v.run.outcome = .ok given) visits results →
          (x.run input).outcome = .ok results.flatten ∧
            results.flatten.length = (results.map List.length).sum)) := by
  intro lack?
  have hyields : s.Yields r m := Resolver.yields_of_compileWith_eq_ok hcache hm
  have hcompiled : m.Compiled r := ⟨s, hyields⟩
  obtain ⟨id, declared, kind⟩ := s
  obtain ⟨_, kind', _, rfl⟩ := ModuleSpec.yields_mk_iff.1 hyields
  obtain rfl : kind' = .parallel branches := hbranches
  obtain ⟨c, schedule, kind', rfl, hrel, rfl⟩ := runsAs_mk_iff.1 hx
  cases hrel with
  | @parallel _ ways hways =>
    refine ⟨?_, fun hbound => ?_⟩
    · rintro name spec hstrict hlack
      show Executable.runParallelBy schedule id _ c.policy ways input = _
      rw [hstrict]
      exact Executable.runParallelBy_of_lack schedule id _ (map_inputSide hways ▸ hlack)
    · obtain ⟨visits, hvisits, hjoins⟩ := exists_joins_of_bound schedule id
        (declared.composite none (branches.map signature)) hways hbound
      refine ⟨visits, hvisits, hjoins, fun hempty results hresults => ?_⟩
      -- Derived outputs have the names of all that the branches give: nothing is filtered out.
      have hdeclared : declared.output = [] := hempty
      have hchildren : ∀ b ∈ branches, b.Compiled r := hcompiled.child
      have hall := declares_of_derived hdeclared hchildren hvisits hresults
      have hok := hjoins.ok results hresults
      rw [List.filter_eq_self.2 hall] at hok
      exact ⟨hok, List.length_flatten⟩

/-- Two calls of one tool, of which the first requires an input. -/
def demandingPings : ModuleSpec :=
  .mk "both" .empty (.parallel [.tool "one" "ping" [.required "x" .any] (.required "one" .integer),
    .tool "two" "ping" [] (.required "two" .integer)])

/-- Under the strict policy either no call is made or both are, and then what they give is
joined. -/
theorem run_demandingPings :
    let x : ValueSpec := .required "x" .any
    let branches : List Module :=
      [.mk "one" (.ofSides [x] [.required "one" .integer]) (.tool "ping"),
        .mk "two" (.ofSides [] [.required "two" .integer]) (.tool "ping")]
    let m : Module := .mk "both" (Signature.empty.composite none (branches.map signature))
      (.parallel branches)
    let c : Context := { pinging with policy := .strict }
    (demandingPings.compileWith (Resolver.compileAt .empty 0) .empty).1 = .ok m ∧
      m.run c [] = .fail (.unresolvedInput "one.x" "x") ∧
      ∃ visits, Executable.Joins m.signature visits (m.run c [⟨x, .integer 2⟩]) ∧
        visits.map Visit.input = [[⟨x, .integer 2⟩], []] := by
  intro x branches m c
  have hcompiles : (demandingPings.compileWith (Resolver.compileAt .empty 0) .empty).1 = .ok m :=
    rfl
  have hway : m.RunsAs (fun c => c.policy = .strict) (m.executable c) :=
    runsAs_executable (P := fun c => c.policy = .strict) rfl m
  obtain ⟨hlack, -⟩ := run_fanOut (CompileCache.sound_empty .empty) hcompiles rfl hway []
  obtain ⟨-, hbound⟩ := run_fanOut (CompileCache.sound_empty .empty) hcompiles rfl hway
    [⟨x, .integer 2⟩]
  obtain ⟨visits, hvisits, hjoins, -⟩ := hbound fun _ => by decide
  have hinputs : branches.map (fun b => (Bindings.ofList [⟨x, .integer 2⟩]).take .empty
      b.signature.input) = visits.map Visit.input := by
    rw [← List.forall₂_eq_eq_eq, List.forall₂_map_left_iff, List.forall₂_map_right_iff]
    exact hvisits.imp fun b v hv => hv.input.symm
  exact ⟨hcompiles, hlack "one" x rfl (by decide), visits, hjoins, hinputs.symm⟩

end Module

end WorkflowEngine
