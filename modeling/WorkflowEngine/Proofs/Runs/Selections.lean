import WorkflowEngine.Proofs.Drafts
import WorkflowEngine.Proofs.Runs.Bindings
import WorkflowEngine.Proofs.Runs.Visits

/-!
# What a switch selects

A switch runs one branch at most: the one that its author has bound last to a key equal to what the
condition is bound to, or else the one set last to run when no case fits. So the order of the cases
shows nowhere but in a signature that is derived from them.
-/

namespace WorkflowEngine

namespace Executable

variable {policy : InputPolicy} {input : List Value}

/-- A switch with given outputs runs as its branch does: it fails at once if the inputs of the
branch are not resolved, and otherwise visits the branch and gives the outputs among what that
gives. -/
structure RunsBranch (outputs : List ValueSpec) (policy : InputPolicy) (input : List Value)
    (branch : Executable) (r : Run (List Value)) : Prop where
  /-- Nothing happens if the inputs of the branch are not resolved. -/
  unresolved : ∀ e,
    (Bindings.ofList input).resolve branch.id .empty policy branch.signature.input = .error e →
      r = .fail e
  /-- Otherwise the branch is visited, and nothing else happens. -/
  visited : ∀ taken,
    (Bindings.ofList input).resolve branch.id .empty policy branch.signature.input = .ok taken →
      let visit : Visit := ⟨branch, .empty, ⟨input⟩, taken⟩
      r = ⟨visit.run.outcome.map fun given => (ValueSet.mk given).project outputs,
        visit.run.elapsed, visit.run.log⟩

/-- A switch that has selected a branch runs it. -/
theorem runsBranch_of_selected (signature : Signature) (policy : InputPolicy) {condition : String}
    {cases : List (Case Executable)} {fallback : Option Executable} {b : Executable}
    (h : select cases fallback (conditionIn condition input) = some b) :
    RunsBranch signature.output policy input b
      (runSwitch signature policy condition cases fallback input) := by
  rw [runSwitch_of_selected signature policy h, Run.andThen_ofExcept, resolveAndInvoke_eq,
    resolveInputs_eq_resolve, ValueSet.bindings_mk]
  constructor
  · intro e he
    rw [he]
    rfl
  · intro taken htaken visit
    rw [htaken]
    show (⟨visit.run.outcome >>= _, _, _⟩ : Run (List Value)) = _
    cases visit.run.outcome <;> rfl

/-- If nothing is selected on the one side, nothing is on the other. -/
theorem select_eq_none_of_rel {α β : Type} {R : α → β → Prop} {cases : List (Case α)}
    {cases' : List (Case β)} {fallback : Option α} {fallback' : Option β}
    (hcases : List.Forall₂ (Case.Rel R) cases cases')
    (hfallback : Option.Rel R fallback fallback') {p : Payload}
    (h : select cases fallback p = none) : select cases' fallback' p = none := by
  have hrel := rel_select hcases hfallback p
  rw [h] at hrel
  generalize select cases' fallback' p = selected at hrel ⊢
  cases hrel
  rfl

/-- If its cases have different keys, a switch runs alike whatever their order is. -/
theorem runSwitch_perm {signature signature' : Signature}
    (houtput : signature.output = signature'.output) {cases cases' : List (Case Executable)}
    (hperm : cases.Perm cases') (hnodup : (cases.map Case.key).Nodup) (policy : InputPolicy)
    (condition : String) (fallback : Option Executable) :
    runSwitch signature policy condition cases fallback =
      runSwitch signature' policy condition cases' fallback := by
  funext input
  have hselect : ∀ p, select cases fallback p = select cases' fallback p := by
    intro p
    rw [select, select, find?_key_perm hperm hnodup]
  unfold runSwitch
  simp only [hselect, houtput]

end Executable

theorem map_key_of_forall₂ {α β : Type} {R : α → β → Prop} {cases : List (Case α)}
    {cases' : List (Case β)} (h : List.Forall₂ (Case.Rel R) cases cases') :
    cases.map Case.key = cases'.map Case.key := by
  rw [← List.forall₂_eq_eq_eq, List.forall₂_map_left_iff, List.forall₂_map_right_iff]
  exact h.imp fun _ _ hcase => hcase.key

namespace ModuleSpec

variable {r : Resolver}

/-- A specification has one module at most. -/
theorem Yields.unique {s : ModuleSpec} {m m' : Module} (h : s.Yields r m) (h' : s.Yields r m') :
    m = m' := Except.ok.inj (h.symm.trans h')

/-- Cases in another order have the same modules, in that order. -/
theorem perm_of_yields {cases cases' : List (Case ModuleSpec)}
    {compiled compiled' : List (Case Module)}
    (hperm : cases.Perm cases') (h : List.Forall₂ (Case.Rel (Yields r)) cases compiled)
    (h' : List.Forall₂ (Case.Rel (Yields r)) cases' compiled') : compiled.Perm compiled' := by
  have hunique : Relator.RightUnique (Case.Rel (Yields r)) := by
    intro c d e hd he
    have hkey : d.key = e.key := hd.key.symm.trans he.key
    have hchild : d.child = e.child := hd.child.unique he.child
    obtain ⟨_, _⟩ := d
    obtain ⟨_, _⟩ := e
    simp only at hkey hchild
    rw [hkey, hchild]
  exact List.rel_perm_imp hunique h h' hperm

/-- A fallback has one module at most. -/
theorem option_unique_of_yields {fallback : Option ModuleSpec} {below below' : Option Module}
    (h : Option.Rel (Yields r) fallback below) (h' : Option.Rel (Yields r) fallback below') :
    below = below' := by
  cases h with
  | none =>
    cases h'
    rfl
  | some h =>
    cases h' with
    | some h' => rw [h.unique h']

/-- Switches of the same cases in different orders, with declared outputs, run alike: for each way
of the one there is a way of the other that does the same on every input. -/
theorem exists_way_of_perm {id : ModuleId} {declared : Signature} (houtput : declared.output ≠ [])
    {condition : String} {cases cases' : List (Case ModuleSpec)} {fallback : Option ModuleSpec}
    (hperm : cases.Perm cases') {m m' : Module}
    (hm : (ModuleSpec.mk id declared (.switch condition cases fallback)).Yields r m)
    (hm' : (ModuleSpec.mk id declared (.switch condition cases' fallback)).Yields r m')
    {P : Context → Prop} {x : Executable} (hx : m.RunsAs P x) :
    ∃ x', m'.RunsAs P x' ∧ x'.run = x.run := by
  obtain ⟨hcompilable, kind, hkind, rfl⟩ := yields_mk_iff.1 hm
  obtain ⟨-, kind', hkind', rfl⟩ := yields_mk_iff.1 hm'
  cases hkind with
  | @switch _ _ compiled _ below hcases hfallback =>
    cases hkind' with
    | @switch _ _ compiled' _ below' hcases' hfallback' =>
      obtain ⟨c, schedule, _, hc, hrel, rfl⟩ := Module.runsAs_mk_iff.1 hx
      cases hrel with
      | @switch _ _ ways _ last hways hlast =>
        have hcompiled : compiled'.Perm compiled := (perm_of_yields hperm hcases hcases').symm
        -- The other switch has the ways of this one, in the order of its own cases.
        obtain ⟨ways', hways', hpermuted⟩ := List.perm_comp_forall₂ hcompiled hways
        obtain rfl : below = below' := option_unique_of_yields hfallback hfallback'
        have hkeys : (ways'.map Case.key).Nodup := by
          rw [← map_key_of_forall₂ hways', ← map_key_of_forall₂ hcases']
          exact (hperm.map Case.key).nodup_iff.1 hcompilable.kind
        have houtputs := Signature.deriveSide_of_ne_nil houtput
        refine ⟨_, Module.runsAs_mk_iff.2 ⟨c, schedule, _, hc, .switch condition hways' hlast, rfl⟩,
          Executable.runSwitch_perm ?_ hpermuted hkeys c.policy condition last⟩
        exact (houtputs _).trans (houtputs _).symm

/-- A switch compiles if its names are proper, its keys are different, and its children compile. -/
theorem exists_yields_switch {id : ModuleId} {declared : Signature} (hnames : declared.ProperNames)
    {condition : String} {cases : List (Case ModuleSpec)} {fallback : Option ModuleSpec}
    (hkeys : (cases.map Case.key).Nodup)
    (hchildren : ∀ c ∈ cases.map Case.child ++ fallback.toList, ∃ n, c.Yields r n) :
    ∃ m, (ModuleSpec.mk id declared (.switch condition cases fallback)).Yields r m := by
  have hexists : ∀ c : ModuleSpec, ∃ n,
      c ∈ cases.map Case.child ++ fallback.toList → c.Yields r n := by
    intro c
    by_cases hc : c ∈ cases.map Case.child ++ fallback.toList
    · obtain ⟨n, hn⟩ := hchildren c hc
      exact ⟨n, fun _ => hn⟩
    · exact ⟨default, fun h => absurd h hc⟩
  choose compiled hcompiled using hexists
  have hrel := Kind.rel_map_right (k := Kind.switch condition cases fallback)
    (fun _ : ModuleId => (default : Module)) compiled (T := r.Yields) nofun hcompiled
  exact ⟨_, yields_mk_iff.2 ⟨⟨hnames, hkeys⟩, _, hrel, rfl⟩⟩

/-- So a switch compiles with its cases in another order, too. -/
theorem exists_yields_of_perm {id : ModuleId} {declared : Signature} {condition : String}
    {cases cases' : List (Case ModuleSpec)} {fallback : Option ModuleSpec}
    (hperm : cases.Perm cases') {m : Module}
    (hm : (ModuleSpec.mk id declared (.switch condition cases fallback)).Yields r m) :
    ∃ n, (ModuleSpec.mk id declared (.switch condition cases' fallback)).Yields r n := by
  obtain ⟨hcompilable, kind, hkind, rfl⟩ := yields_mk_iff.1 hm
  refine exists_yields_switch hcompilable.names ?_ fun c hc => ?_
  · exact (hperm.map Case.key).nodup_iff.1 hcompilable.kind
  · have hmem : c ∈ cases.map Case.child ++ fallback.toList :=
      ((hperm.map Case.child).append_right _).mem_iff.2 hc
    obtain ⟨n, -, hn⟩ := exists_mem_of_forall₂ hkind.children.flip hmem
    exact ⟨n, hn⟩

/-- The declared sides of a switch are those of its module, but for the condition. -/
theorem sides_of_yields_switch {id : ModuleId} {declared : Signature} {condition : String}
    {cases : List (Case ModuleSpec)} {fallback : Option ModuleSpec} {m : Module}
    (hm : (ModuleSpec.mk id declared (.switch condition cases fallback)).Yields r m) :
    (declared.input ≠ [] →
      m.signature.input = Signature.withCondition (some condition) declared.input) ∧
    (declared.output ≠ [] → m.signature.output = declared.output) := by
  obtain ⟨-, kind, hkind, rfl⟩ := yields_mk_iff.1 hm
  cases hkind with
  | switch _ _ _ =>
    exact ⟨fun h => congrArg (Signature.withCondition (some condition))
        (Signature.deriveSide_of_ne_nil h _),
      fun h => Signature.deriveSide_of_ne_nil h _⟩

end ModuleSpec

namespace Module

open Executable

variable {r : Resolver} {P : Context → Prop} {m : Module} {x : Executable}

/-- A way of a compiled switch selects a way of a module of what its specification selects, or
nothing if that selects nothing. -/
theorem exists_way_of_switch {id : ModuleId} {declared : Signature} {condition : String}
    {cases : List (Case ModuleSpec)} {fallback : Option ModuleSpec}
    (hm : (ModuleSpec.mk id declared (.switch condition cases fallback)).Yields r m)
    {policy : InputPolicy} (hx : m.RunsAs (fun c => c.policy = policy) x) (input : List Value) :
    let selected? := select cases fallback (conditionIn condition input)
    (selected? = none →
      x.run input = .fail (.unmatchedCondition condition (conditionIn condition input).text)) ∧
    ∀ child, selected? = some child → ∃ n y, child.Yields r n ∧
      n.RunsAs (fun c => c.policy = policy) y ∧
      RunsBranch m.signature.output policy input y (x.run input) := by
  intro selected?
  obtain ⟨-, kind, hkind, rfl⟩ := ModuleSpec.yields_mk_iff.1 hm
  obtain ⟨c, schedule, kind', rfl, hrel, rfl⟩ := runsAs_mk_iff.1 hx
  cases hkind with
  | switch _ hcases hfallback =>
    cases hrel with
    | switch _ hways hlast =>
      refine ⟨fun hnone => ?_, fun child hchild => ?_⟩
      · have hmodules := select_eq_none_of_rel hcases hfallback hnone
        exact runSwitch_of_none _ c.policy (select_eq_none_of_rel hways hlast hmodules)
      · obtain ⟨n, hn, hyields⟩ := exists_select_eq_some hcases hfallback hchild
        obtain ⟨y, hy, hway⟩ := exists_select_eq_some hways hlast hn
        exact ⟨n, y, hyields, hway, runsBranch_of_selected _ c.policy hy⟩

end Module

namespace SwitchDraft

variable {r : Resolver}

/-- A switch that an author has built by any calls, from the draft to its runs:

1. to check it is to check its names and then its children in their order;
2. to compile it is to check the names of its signature and to compile its children in their order,
   so that it has a module if these have;
3. in whatever order branches end and whatever each call of a capability is answered with, it runs
   what its author has bound last to a key equal to what the condition is bound to, or else what has
   been set last to run when no case fits, and nothing else; if there is neither it fails at once;
4. if its outputs are declared it does the same with its cases in any other order, and has the same
   sides if its inputs are declared, too. -/
theorem run_after (r : Resolver) (id : ModuleId) (condition : String) (calls : List SwitchCall) :
    let d := (start id condition).after calls
    d.build.validate = (do
        Kind.demand (id != "") .emptyModuleId
        d.build.signature.check id
        Kind.demand (condition != "") (.emptyCondition id)
        firstFailure (d.build.children.map ModuleSpec.validate)) ∧
      ((∀ reference : ModuleId → Compiling Module, d.build.compileWith reference =
          ModuleSpec.ofExcept (d.build.signature.check id) >>= fun _ =>
            (d.parts.cases.mapM fun c => Case.mk c.key <$> c.child.compileWith reference) >>=
              fun cases => d.parts.fallback.mapM (ModuleSpec.compileWith reference) >>=
                fun fallback =>
                  let kind : Kind Module Module := .switch condition cases fallback
                  pure (.mk id (d.build.signature.completed none kind) kind)) ∧
        (d.build.signature.ProperNames → (∀ c ∈ d.build.children, ∃ n, c.Yields r n) →
          ∃ m, d.build.Yields r m)) ∧
      (∀ cache : CompileCache, cache.Sound r → ∀ depth m,
        (d.build.compileWith (r.compileAt depth) cache).1 = .ok m → ∀ policy x,
          m.RunsAs (fun c => c.policy = policy) x → ∀ input,
            let p := Executable.conditionIn condition input
            let selected? := (SwitchCall.lastCase? calls p).or (SwitchCall.lastFallback? calls)
            (selected? = none → x.run input = .fail (.unmatchedCondition condition p.text)) ∧
            ∀ child, selected? = some child → ∃ n y, child.Yields r n ∧
              n.RunsAs (fun c => c.policy = policy) y ∧
              Executable.RunsBranch m.signature.output policy input y (x.run input)) ∧
      (d.outputs ≠ [] → ∀ cases, d.parts.cases.Perm cases →
        let s := ModuleSpec.mk id d.build.signature (.switch condition cases d.parts.fallback)
        ∀ m, d.build.Yields r m → (∃ n, s.Yields r n) ∧ ∀ n, s.Yields r n →
          (d.inputs ≠ [] → n.signature.input = m.signature.input) ∧
          n.signature.output = m.signature.output ∧
          ∀ P : Context → Prop, (∀ x, m.RunsAs P x → ∃ y, n.RunsAs P y ∧ y.run = x.run) ∧
            ∀ y, n.RunsAs P y → ∃ x, m.RunsAs P x ∧ x.run = y.run) := by
  intro d
  have hid : d.id = id := id_after (start id condition) calls
  have hcondition : d.parts.condition = condition := condition_after (start id condition) calls
  have hkeys : (d.parts.cases.map Case.key).Nodup := nodup_start_after id condition calls
  have hbuild : d.build =
      .mk id d.build.signature (.switch condition d.parts.cases d.parts.fallback) := by
    rw [← hid, ← hcondition]
    rfl
  refine ⟨?_, ⟨fun reference => ?_, fun hnames hchildren => ?_⟩, ?_, ?_⟩
  · rw [hbuild]
    exact ModuleSpec.validate_switch id d.build.signature condition d.parts.fallback hkeys
  · rw [hbuild]
    exact ModuleSpec.compileWith_switch reference id d.build.signature condition d.parts.fallback
      hkeys
  · rw [hbuild]
    exact ModuleSpec.exists_yields_switch hnames hkeys hchildren
  · intro cache hcache depth m hm policy x hx input p selected?
    have hyields : d.build.Yields r m := Resolver.yields_of_compileWith_eq_ok hcache hm
    rw [hbuild] at hyields
    -- The keys are distinct, so that what is selected first is what was added last.
    have hruns := Module.exists_way_of_switch hyields hx input
    rwa [select_start_after id condition calls] at hruns
  · intro houtput cases hperm s m hm
    rw [hbuild] at hm
    obtain ⟨hinput, houtput'⟩ := ModuleSpec.sides_of_yields_switch hm
    refine ⟨ModuleSpec.exists_yields_of_perm hperm hm, fun n hn => ?_⟩
    obtain ⟨hinput', houtput''⟩ := ModuleSpec.sides_of_yields_switch hn
    refine ⟨fun h => (hinput' h).trans (hinput h).symm,
      (houtput'' houtput).trans (houtput' houtput).symm, fun P => ⟨fun x hx => ?_, fun y hy => ?_⟩⟩
    · exact ModuleSpec.exists_way_of_perm houtput hperm hm hn hx
    · exact ModuleSpec.exists_way_of_perm houtput hperm.symm hn hm hy

/-- Calls that bind one key twice. -/
def rebinding : List SwitchCall :=
  [.output "answer" .any,
    .addCase (.string "a") (.tool "first" "ping" [] (.required "answer" .any)),
    .addCase (.integer 1) (.tool "other" "ping" [] (.required "answer" .any)),
    .addCase (.string "a") (.tool "second" "ping" [] (.required "answer" .any))]

/-- A key that is bound twice selects what it is bound to last, and nothing is selected for the text
of an integer, nor if the cases change places. -/
theorem run_rebinding :
    let d := (start "route" "topic").after rebinding
    let tool (id : ModuleId) : Module :=
      .mk id (.ofSides [] [.required "answer" .any]) (.tool "ping")
    let cases : List (Case Module) := [⟨.string "a", tool "second"⟩, ⟨.integer 1, tool "other"⟩]
    let m : Module := .mk "route"
      ((Signature.ofSides [] [.required "answer" .any]).composite (some "topic")
        (cases.map fun c => c.child.signature)) (.switch "topic" cases none)
    let topic (p : Payload) : Value := ⟨.required "topic" .any, p⟩
    d.build.validate = .ok () ∧
      (d.build.compileWith (Resolver.compileAt .empty 0) .empty).1 = .ok m ∧
      (∃ n y, (ModuleSpec.tool "second" "ping" [] (.required "answer" .any)).Yields .empty n ∧
        n.RunsAs (fun c => c.policy = .lenient) y ∧
        Executable.RunsBranch m.signature.output .lenient [topic (.string "a")] y
          (m.run Module.pinging [topic (.string "a")])) ∧
      m.run Module.pinging [topic (.string "1")] = .fail (.unmatchedCondition "topic" "1") ∧
      ∀ n, (ModuleSpec.mk "route" d.build.signature
        (.switch "topic" d.parts.cases.reverse none)).Yields .empty n →
          ∃ y, n.RunsAs (fun c => c.policy = .lenient) y ∧
            y.run = m.run Module.pinging := by
  intro d tool cases m topic
  have hcompiles : (d.build.compileWith (Resolver.compileAt .empty 0) .empty).1 = .ok m := rfl
  have hway : m.RunsAs (fun c => c.policy = .lenient) (m.executable Module.pinging) :=
    Module.runsAs_executable (P := fun c => c.policy = .lenient) rfl m
  obtain ⟨hcheck, -, hruns, hperm⟩ := run_after .empty "route" "topic" rebinding
  have hruns' := hruns .empty (CompileCache.sound_empty .empty) 0 m hcompiles .lenient _ hway
  obtain ⟨-, hbound⟩ := hruns' [topic (.string "a")]
  obtain ⟨hunbound, -⟩ := hruns' [topic (.string "1")]
  have hyields : d.build.Yields .empty m := rfl
  obtain ⟨-, halike⟩ := hperm (by decide) _ d.parts.cases.reverse_perm.symm m hyields
  refine ⟨hcheck.trans rfl, hcompiles, hbound _ rfl, hunbound rfl, fun n hn => ?_⟩
  exact ((halike n hn).2.2 _).1 _ hway

end SwitchDraft

end WorkflowEngine
