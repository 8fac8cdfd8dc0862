import WorkflowEngine.Proofs.Compilation.Stability
import WorkflowEngine.Proofs.Runs.InTurn
import WorkflowEngine.Proofs.Runs.Selections

/-!
# Switches and what they select

A switch that declares nothing stands for the branch that it selects. It asks for all that its
branches ask for, so that the branch draws on the same values inside it as in its place, and it
declares all that they give, so that nothing which the branch gives is lost. One difference remains.
A fan-out may give a name more than once; of these values a switch passes on the first, while a
sequence that merges them itself is left with the last.
-/

namespace WorkflowEngine

namespace Bindings

/-- Of values that are projected under all of their names, each once, the first of each name
overrides. -/
theorem override_project {b : Bindings} {values : List Value} {specs : List ValueSpec}
    (hnodup : (specs.map ValueSpec.name).Nodup)
    (h : ∀ v ∈ values, v.name ∈ specs.map ValueSpec.name) :
    b.override ((ValueSet.mk values).project specs) = b.override values.reverse := by
  funext name
  have hnames : (((ValueSet.mk values).project specs).reverse.map Value.name).Nodup := by
    have hsublist := (ValueSet.map_spec_project_sublist ⟨values⟩ specs).map ValueSpec.name
    rw [List.map_map] at hsublist
    rw [List.map_reverse, List.nodup_reverse]
    exact hsublist.nodup hnodup
  have hprojected : ofList ((ValueSet.mk values).project specs).reverse name =
      ofList values name := by
    rw [ofList_perm (List.reverse_perm _) hnames, ValueSet.project_eq_take, ofList_take]
    split
    · rfl
    · next hname =>
      refine (ofList_eq_none_iff.2 fun hmem => hname ?_).symm
      obtain ⟨v, hv, rfl⟩ := List.mem_map.1 hmem
      exact h v hv
  rw [override_reverse_apply, ← hprojected]
  rfl

end Bindings

namespace Executable

variable (current : ValueSet)

/-- Among the inputs of a switch its condition is bound to what it is bound to outside. -/
theorem conditionIn_project {condition : String} {specs : List ValueSpec}
    (h : condition ∈ specs.map ValueSpec.name) :
    conditionIn condition (current.project specs) = conditionIn condition current.toList := by
  have hbound : Bindings.ofList (current.project specs) condition = current.bindings condition := by
    rw [ValueSet.project_eq_take, Bindings.ofList_take, if_pos h]
  exact congrArg (Option.getD · .null) hbound

/-- A switch that draws on values gives what the branch gives that it selects by them, projected
onto its outputs, or fails as the branch does. -/
theorem givenFrom_switch (id : ModuleId) {signature : Signature} {condition : String}
    {cases : List (Case Executable)} {fallback : Option Executable} {b : Executable}
    (hcondition : condition ∈ signature.inputNames)
    (hb : select cases fallback (conditionIn condition current.toList) = some b)
    (hinput : b.signature.inputNames ⊆ signature.inputNames) :
    givenFrom current
        ⟨id, .switch, signature, runSwitch signature .lenient condition cases fallback⟩ =
      (b.givenFrom current).map fun given => (ValueSet.mk given).project signature.output := by
  have hselect : select cases fallback (conditionIn condition (current.project signature.input)) =
      some b := by rw [conditionIn_project current hcondition, hb]
  have htaken : (ValueSet.mk (current.project signature.input)).project b.signature.input =
      current.project b.signature.input :=
    ValueSet.project_project fun spec hspec => hinput (List.mem_map_of_mem hspec)
  show (runSwitch signature .lenient condition cases fallback
    (current.project signature.input)).outcome = _
  rw [runSwitch_of_selected signature .lenient hselect, Run.outcome_andThen, resolveAndInvoke,
    resolveInputs_lenient, resolved_empty, htaken]
  show b.givenFrom current >>= _ = _
  cases b.givenFrom current <;> rfl

end Executable

namespace Module

variable {c : Context} {id : ModuleId} {signature : Signature}

/-- A sequence of one branch ends as the branch does, with the declared names as they are bound
after what it gives has overridden the input. -/
theorem outcome_run_inTurn_singleton (hc : c.policy = .lenient) (m : Module)
    (input : List Value) :
    ((inTurn id signature [m]).run c input).outcome =
      ((m.executable c).givenFrom ⟨input⟩).map fun outputs =>
        ((Bindings.ofList input).override outputs).take .empty signature.output := by
  have hrun : (inTurn id signature [m]).run c input =
      Executable.runSequential id signature c.policy [⟨m.executable c, .empty⟩] input := by
    rw [run, executable, inTurn, fold_mk]
    rfl
  rw [hrun, hc, Executable.outcome_runSequential_lenient, Executable.outcome_runSteps_cons]
  cases (m.executable c).givenFrom ⟨input⟩ with
  | error e => rfl
  | ok outputs =>
    have hbound := ValueSet.bindings_mergeAll ⟨input⟩ outputs
    exact congrArg Except.ok ((ValueSet.project_eq_take _ _).trans (by rw [hbound]; rfl))

/-- What a child gives from an input is what it ends with on its declared inputs. -/
theorem givenFrom_executable (c : Context) (input : List Value) (m : Module) :
    (m.executable c).givenFrom ⟨input⟩ =
      (m.run c ((Bindings.ofList input).take .empty m.signature.input)).outcome := by
  rw [Executable.givenFrom, ValueSet.project_eq_take, signature_executable]
  rfl

end Module

namespace ModuleSpec

variable {r : Resolver} {id : ModuleId} {signature declared : Signature} {condition : String}
  {cases : List (Case ModuleSpec)} {fallback : Option ModuleSpec} {b : ModuleSpec} {m : Module}
  {input : List Value}

/-- The module of a sequence of one branch is the sequence of its module. -/
theorem yields_inTurn_singleton_iff :
    (inTurn id signature [b]).Yields r m ↔
      signature.ProperNames ∧ ∃ k, b.Yields r k ∧ m = .inTurn id signature [k] := by
  rw [inTurn, yields_mk_iff]
  constructor
  · rintro ⟨hself, kind, hrel, rfl⟩
    refine ⟨hself.names, ?_⟩
    cases hrel with
    | sequential hsteps =>
      obtain ⟨⟨k, mapping⟩, rest, ⟨hk, rfl⟩, hrest, rfl⟩ := List.forall₂_cons_left_iff.1 hsteps
      cases hrest
      exact ⟨k, hk, rfl⟩
  · rintro ⟨hproper, k, hk, rfl⟩
    exact ⟨⟨hproper, trivial⟩, _, .sequential (.cons ⟨hk, rfl⟩ .nil), rfl⟩

/-- The module of a switch without a signature of its own gives what the module gives of the branch
that is selected, projected onto its own outputs, which have all names of that. -/
theorem Yields.givenFrom_switch
    (hm : (mk id declared (.switch condition cases fallback)).Yields r m)
    (hdeclared : declared.isEmpty = true)
    (hb : Executable.select cases fallback (Executable.conditionIn condition input) = some b) :
    ∃ k, b.Yields r k ∧ k.signature.outputNames ⊆ m.signature.outputNames ∧
      ∀ c : Context, c.policy = .lenient →
        (m.executable c).givenFrom ⟨input⟩ =
          ((k.executable c).givenFrom ⟨input⟩).map fun given =>
            (ValueSet.mk given).project m.signature.output := by
  have hcondition : condition ∈ m.signature.inputNames := hm.condition_mem rfl
  obtain ⟨-, kind, hrel, rfl⟩ := yields_mk_iff.1 hm
  cases hrel with
  | @switch _ _ compiled _ last hcases hfallback =>
    obtain ⟨k, hselected, hk⟩ := Executable.exists_select_eq_some hcases hfallback hb
    have hmem : k.signature ∈
        (Kind.switch (ρ := Module) condition compiled last).children.map Module.signature :=
      List.mem_map_of_mem (Executable.mem_of_select_eq_some hselected)
    obtain ⟨hinput, houtput⟩ :=
      Signature.names_subset_composite hdeclared (some condition) hmem
    refine ⟨k, hk, houtput, fun c hc => ?_⟩
    have hselect := Executable.select_map (Module.executable c) compiled last
      (Executable.conditionIn condition input)
    rw [hselected, Option.map_some] at hselect
    rw [← Module.signature_executable c k] at hinput
    have hswitch := Executable.givenFrom_switch ⟨input⟩ id hcondition hselect hinput
    rw [← hc] at hswitch
    rw [Module.executable, Module.fold_mk]
    exact hswitch

/-- A sequence of a switch without a signature of its own ends as the branch that is selected does,
with the declared names as they are bound after the first output of each name has overridden the
input. -/
theorem Yields.outcome_run_switch {w : Module} {inner : ModuleId}
    (hw : (mk inner declared (.switch condition cases fallback)).Yields r w)
    (hdeclared : declared.isEmpty = true)
    (hb : Executable.select cases fallback (Executable.conditionIn condition input) = some b) :
    ∃ k, b.Yields r k ∧ ∀ c : Context, c.policy = .lenient → ∀ id signature,
      ((Module.inTurn id signature [w]).run c input).outcome =
        ((k.executable c).givenFrom ⟨input⟩).map fun outputs =>
          ((Bindings.ofList input).override outputs.reverse).take .empty signature.output := by
  obtain ⟨k, hk, hnames, hgiven⟩ := hw.givenFrom_switch hdeclared hb
  have hdistinct : w.signature.outputNames.Nodup := (Module.Compiled.nodup_sides ⟨_, hw⟩).2
  refine ⟨k, hk, fun c hc id signature => ?_⟩
  rw [Module.outcome_run_inTurn_singleton hc, hgiven c hc]
  cases houtputs : (k.executable c).givenFrom ⟨input⟩ with
  | error e => rfl
  | ok outputs =>
    have hdeclares : ∀ v ∈ outputs, v.name ∈ w.signature.outputNames := by
      intro v hv
      have hmem := Module.Compiled.givesDeclared ⟨b, hk⟩ c _ outputs houtputs v hv
      rw [Module.signature_executable] at hmem
      exact hnames hmem
    have hoverride := Bindings.override_project (b := .ofList input) hdistinct hdeclares
    exact congrArg (fun bound => Except.ok (bound.take .empty signature.output)) hoverride

/-- A switch without a signature of its own, as the one step of a sequence, and the branch that it
selects, as the one step of a sequence with the same signature:

1. if the one sequence has a module, so has the other;
2. both end with the error of the branch if that fails, in surroundings that answer alike, in
   whatever order branches end and under the lenient policy;
3. otherwise both give the declared names as they are bound after the outputs of the branch have
   overridden the input, but of the outputs of one name the first one does around the switch, and
   the last one around the branch;
4. so both end alike exactly if the branch fails or, of its outputs of any name that the sequence
   declares, the first has the content of the last;
5. in particular both end alike if the branch is no fan-out and leads to none by references. -/
theorem run_switch_eq_run_branch {cache : CompileCache} (hcache : cache.Sound r) {depth : Nat}
    {inner : ModuleId} (hdeclared : declared.isEmpty = true)
    (hm : ((inTurn id signature [.mk inner declared (.switch condition cases fallback)]).compileWith
      (r.compileAt depth) cache).1 = .ok m)
    (hb : Executable.select cases fallback (Executable.conditionIn condition input) = some b)
    (id' : ModuleId) :
    ∃ k, b.Yields r k ∧ (inTurn id' signature [b]).Yields r (.inTurn id' signature [k]) ∧
      ∀ c : Context, c.policy = .lenient → ∀ x, m.RunsAs c.Alike x →
        ∀ y, (Module.inTurn id' signature [k]).RunsAs c.Alike y →
          let given := (k.run c ((Bindings.ofList input).take .empty k.signature.input)).outcome
          (∀ e, given = .error e →
            (x.run input).outcome = .error e ∧ (y.run input).outcome = .error e) ∧
          (∀ outputs, given = .ok outputs →
            (x.run input).outcome = .ok
              (((Bindings.ofList input).override outputs.reverse).take .empty signature.output) ∧
            (y.run input).outcome = .ok
              (((Bindings.ofList input).override outputs).take .empty signature.output)) ∧
          ((x.run input).outcome = (y.run input).outcome ↔ ∀ outputs, given = .ok outputs →
            ∀ spec ∈ signature.output,
              Bindings.ofList outputs spec.name = Bindings.ofList outputs.reverse spec.name) ∧
          ((∀ l, k.LeadsTo l → l.type ≠ .parallel) →
            (x.run input).outcome = (y.run input).outcome) := by
  have hyields : (inTurn id signature [.mk inner declared
      (.switch condition cases fallback)]).Yields r m :=
    Resolver.yields_of_compileWith_eq_ok hcache hm
  obtain ⟨hproper, w, hw, rfl⟩ := yields_inTurn_singleton_iff.1 hyields
  obtain ⟨k, hk, hswitch⟩ := hw.outcome_run_switch hdeclared hb
  refine ⟨k, hk, yields_inTurn_singleton_iff.2 ⟨hproper, k, hk, rfl⟩, ?_⟩
  intro c hc x hx y hy given
  -- Both ends are told from what the branch gives in one of the surroundings.
  have hfirst := (hx.outcome_eq input).trans (hswitch c hc id signature)
  have hlast := (hy.outcome_eq input).trans (Module.outcome_run_inTurn_singleton hc k input)
  rw [Module.givenFrom_executable] at hfirst hlast
  change _ = given.map _ at hfirst hlast
  rw [hfirst, hlast]
  cases hgiven : given with
  | error e =>
    refine ⟨?_, nofun, iff_of_true rfl nofun, fun _ => rfl⟩
    rintro _ ⟨⟩
    exact ⟨rfl, rfl⟩
  | ok outputs =>
    have halike := Bindings.take_override_reverse_eq_iff (.ofList input) outputs signature.output
    refine ⟨nofun, ?_, ?_, fun hleads => ?_⟩
    · rintro _ ⟨⟩
      exact ⟨rfl, rfl⟩
    · refine (Except.ok.injEq _ _ ▸ halike).trans ⟨?_, fun h => h outputs rfl⟩
      rintro h _ ⟨⟩
      exact h
    · have hway : k.RunsAs (fun d => d.policy = .lenient) (k.executable c) :=
        Module.runsAs_executable (P := fun d => d.policy = .lenient) hc k
      have hcompiled : k.Compiled r := ⟨b, hk⟩
      have hordered := (hcompiled.gives hway hgiven).ordered (.of_leadsTo hleads)
      have hdistinct := hcompiled.nodup_names hordered
      refine congrArg Except.ok (halike.2 fun spec _ => ?_)
      rw [Bindings.ofList_perm (List.reverse_perm outputs).symm hdistinct]

/-- A tool call that is selected for a text gives what it gives without the switch. -/
theorem run_switch_ping :
    let answer : ValueSpec := .required "answer" .integer
    let signature : Signature := .ofSides [] [answer]
    let call : ModuleSpec := .tool "call" "ping" [] answer
    let compiled : Module := .mk "call" signature (.tool "ping")
    let cases : List (Case ModuleSpec) := [⟨.string "a", call⟩]
    let topic : Value := ⟨.required "topic" .any, .string "a"⟩
    ∃ m, ((inTurn "routed" signature [.mk "route" .empty (.switch "topic" cases none)]).compileWith
        (Resolver.compileAt .empty 0) .empty).1 = .ok m ∧
      Executable.select cases none (Executable.conditionIn "topic" [topic]) = some call ∧
      (m.run Module.pinging [topic]).outcome =
        ((Module.inTurn "plain" signature [compiled]).run Module.pinging [topic]).outcome := by
  intro answer signature call compiled cases topic
  let route : Module := .mk "route" (.ofSides [.required "topic" .any] [answer])
    (.switch "topic" [⟨.string "a", compiled⟩] none)
  have hcompiles : ((inTurn "routed" signature
      [.mk "route" .empty (.switch "topic" cases none)]).compileWith (Resolver.compileAt .empty 0)
        .empty).1 = .ok (.inTurn "routed" signature [route]) := rfl
  have hselect : Executable.select cases none (Executable.conditionIn "topic" [topic]) =
      some call := rfl
  obtain ⟨k, hk, -, hruns⟩ := run_switch_eq_run_branch (CompileCache.sound_empty .empty)
    (show Signature.empty.isEmpty = true from rfl) hcompiles hselect "plain"
  obtain rfl : k = compiled := hk.unique rfl
  refine ⟨_, hcompiles, hselect, ?_⟩
  obtain ⟨-, -, -, hleads⟩ := hruns Module.pinging rfl _ (Module.runsAs_executable (.refl _) _) _
    (Module.runsAs_executable (.refl _) _)
  refine hleads fun l hl => ?_
  have hcall : (Module.mk "call" signature (.tool "ping")).LeadsTo l := hl
  cases hcall
  nofun

/-- Two calls of different tools with an output of the same name. -/
def askTwice : List ModuleSpec :=
  [.tool "first" "one" [] (.required "x" .any), .tool "second" "two" [] (.required "x" .any)]

/-- Surroundings in which the tools give different numbers. -/
def oneAndTwo : Context :=
  { Context.new "run" with tools := .ofList [.ofFunction "one" fun _ => .ok (.integer 1),
    .ofFunction "two" fun _ => .ok (.integer 2)] }

/-- A fan-out whose branches give one name gives it twice: the sequence around a switch that selects
it ends with the first of the two, the sequence around itself with the last. -/
theorem run_switch_repeating :
    let x : ValueSpec := .required "x" .any
    let signature : Signature := .ofSides [] [x]
    let both : ModuleSpec := .mk "both" .empty (.parallel askTwice)
    ∃ m n, ((inTurn "switched" signature
        [.mk "choose" .empty (.switch "k" [] (some both))]).compileWith
          (Resolver.compileAt .empty 0) .empty).1 = .ok m ∧
      ((inTurn "plain" signature [both]).compileWith (Resolver.compileAt .empty 0) .empty).1 =
        .ok n ∧
      oneAndTwo.policy = .lenient ∧
      Executable.select [] (some both) (Executable.conditionIn "k" []) = some both ∧
      (m.run oneAndTwo []).outcome = .ok [⟨x, .integer 1⟩] ∧
      (n.run oneAndTwo []).outcome = .ok [⟨x, .integer 2⟩] := by
  intro x signature both
  let calls : List Module :=
    [.mk "first" signature (.tool "one"), .mk "second" signature (.tool "two")]
  let compiled : Module := .mk "both" signature (.parallel calls)
  let chosen : Module := .mk "choose" (.ofSides [.required "k" .any] [x])
    (.switch "k" [] (some compiled))
  have hgiven : (compiled.executable oneAndTwo).givenFrom ⟨[]⟩ =
      .ok [⟨x, .integer 1⟩, ⟨x, .integer 2⟩] :=
    (Executable.outcome_runParallel_lenient "both" signature
      (calls.map (Module.executable oneAndTwo)) []).trans rfl
  have hchosen : (ModuleSpec.mk "choose" .empty (.switch "k" [] (some both))).Yields .empty
      chosen := rfl
  have hselect : Executable.select [] (some both) (Executable.conditionIn "k" []) = some both := rfl
  obtain ⟨k, hk, hswitch⟩ := hchosen.outcome_run_switch rfl hselect
  obtain rfl : k = compiled := hk.unique rfl
  refine ⟨.inTurn "switched" signature [chosen], .inTurn "plain" signature [compiled], rfl, rfl,
    rfl, hselect, ?_, ?_⟩
  · rw [hswitch oneAndTwo rfl, hgiven]
    rfl
  · rw [Module.outcome_run_inTurn_singleton rfl, hgiven]
    rfl

end ModuleSpec
end WorkflowEngine
