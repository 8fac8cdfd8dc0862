import WorkflowEngine.Proofs.Compilation.Kept
import WorkflowEngine.Proofs.Derivation
import WorkflowEngine.Proofs.Runs.Failures

/-!
# Whether derived inputs suffice

A fan-out runs all its branches, and a switch the one that its condition selects. If the inputs of
such a module are derived, they name all that a branch may require. Yet a name that several branches
declare is declared for the module as the first of them declares it: what is optional there may be
left unbound although a later branch requires it. Under the strict policy nothing else keeps the
inputs of a branch from being resolved.
-/

namespace WorkflowEngine

/-! ## Failures of composites -/

namespace Executable

variable {policy : InputPolicy} {input : List Value} {e : Error}

/-- A branch that keeps its composite from a result: its inputs cannot be resolved, or it fails on
what has been resolved for it. -/
def FailsIn (policy : InputPolicy) (input : List Value) (e : Error) (b : Executable) : Prop :=
  resolveInputs b.id .empty policy ⟨input⟩ b.signature.input = .error e ∨
    ∃ taken, resolveInputs b.id .empty policy ⟨input⟩ b.signature.input = .ok taken ∧
      (b.run taken).outcome = .error e

/-- A fan-out fails because a branch does. -/
theorem exists_of_runParallelBy_eq_error {schedule : Schedule} {id : ModuleId}
    {signature : Signature} {branches : List Executable}
    (h : (runParallelBy schedule id signature policy branches input).outcome = .error e) :
    ∃ b ∈ branches, b.FailsIn policy input e := by
  cases hready : resolveBranches policy ⟨input⟩ branches with
  | error e' =>
    cases (runParallelBy_of_error schedule id signature hready).1.symm.trans h
    obtain ⟨b, hb, hresolve⟩ := exists_of_resolveBranches_eq_error hready
    exact ⟨b, hb, .inl hresolve⟩
  | ok ready =>
    rw [(runParallelBy_of_ready schedule id signature hready).1] at h
    obtain ⟨r, hr, hfails⟩ := mem_of_joinFrom_eq_error (map_eq_error_iff.1 h)
    obtain ⟨⟨b, taken⟩, hb, rfl⟩ := List.mem_map.1 hr
    obtain ⟨_, hmem, rfl, htaken⟩ :=
      exists_mem_of_forall₂ (forall₂_of_resolveBranches_eq_ok hready) hb
    exact ⟨b, hmem, .inr ⟨taken, htaken, hfails⟩⟩

/-- What the condition of a switch is bound to. -/
def conditionIn (condition : String) (input : List Value) : Payload :=
  (((ValueSet.mk input).get? condition).map Value.payload).getD .null

/-- A switch that selects nothing fails at once. -/
theorem runSwitch_of_none (signature : Signature) (policy : InputPolicy) {condition : String}
    {cases : List (Case Executable)} {fallback : Option Executable}
    (h : select cases fallback (conditionIn condition input) = none) :
    runSwitch signature policy condition cases fallback input =
      .fail (.unmatchedCondition condition (conditionIn condition input).text) := by
  unfold conditionIn at h
  simp only [runSwitch, h]
  rfl

/-- A switch does what the branch that it selects does, and gives what is declared. -/
theorem runSwitch_of_selected (signature : Signature) (policy : InputPolicy) {condition : String}
    {cases : List (Case Executable)} {fallback : Option Executable} {b : Executable}
    (h : select cases fallback (conditionIn condition input) = some b) :
    runSwitch signature policy condition cases fallback input =
      (b.resolveAndInvoke policy .empty ⟨input⟩).andThen fun outputs =>
        .ofExcept (.ok ((ValueSet.mk outputs).project signature.output)) := by
  unfold conditionIn at h
  simp only [runSwitch, h]

/-- A switch fails because it selects nothing, or because the selected branch does. -/
theorem exists_of_runSwitch_eq_error {signature : Signature} {condition : String}
    {cases : List (Case Executable)} {fallback : Option Executable}
    (h : (runSwitch signature policy condition cases fallback input).outcome = .error e) :
    (select cases fallback (conditionIn condition input) = none ∧
      e = .unmatchedCondition condition (conditionIn condition input).text) ∨
    ∃ b, select cases fallback (conditionIn condition input) = some b ∧
      b.FailsIn policy input e := by
  unfold runSwitch at h
  simp only at h
  split at h
  · next hselect =>
    cases h
    exact .inl ⟨hselect, rfl⟩
  · next b hselect =>
    refine .inr ⟨b, hselect, ?_⟩
    rcases Run.exists_of_andThen_eq_error h with h | ⟨_, _, h⟩
    · rcases Run.exists_of_andThen_eq_error h with h | ⟨taken, htaken, h⟩
      · exact .inl h
      · exact .inr ⟨taken, htaken, h⟩
    · cases h

end Executable

namespace Module

/-! ## Branches that a composite runs -/

/-- The branches that a fan-out or a switch runs on an input. -/
def chosen (m : Module) (input : List Value) : List Module :=
  match m.kind with
  | .parallel branches => branches
  | .switch condition cases fallback =>
    (Executable.select cases fallback (Executable.conditionIn condition input)).toList
  | _ => []

/-- What a composite chooses to run is one of its children. -/
theorem mem_children_of_mem_chosen {m b : Module} {input : List Value}
    (h : b ∈ m.chosen input) : b ∈ m.kind.children := by
  unfold chosen at h
  split at h
  · next branches hkind => rwa [hkind]
  · next condition cases fallback hkind =>
    rw [hkind]
    exact Executable.mem_of_select_eq_some (Option.mem_toList.1 h)
  · exact absurd h List.not_mem_nil

/-- In whatever way a fan-out or a switch runs, it fails because it selects nothing or because a
branch that it runs does. -/
theorem exists_chosen_of_run_eq_error {m : Module}
    (htype : m.type = .parallel ∨ m.type = .switch) {policy : InputPolicy} {x : Executable}
    (hx : m.RunsAs (fun c => c.policy = policy) x) {input : List Value} {e : Error}
    (h : (x.run input).outcome = .error e) :
    (m.chosen input = [] ∧ ∃ name value, e = .unmatchedCondition name value) ∨
    ∃ b ∈ m.chosen input, ∃ y, b.RunsAs (fun c => c.policy = policy) y ∧
      y.FailsIn policy input e := by
  obtain ⟨id, signature, kind⟩ := m
  obtain ⟨c, schedule, kind', rfl, hrel, rfl⟩ := runsAs_mk_iff.1 hx
  cases hrel with
  | @parallel branches branches' hways =>
    obtain ⟨y, hy, hfails⟩ := Executable.exists_of_runParallelBy_eq_error h
    obtain ⟨b, hb, hway⟩ := exists_mem_of_forall₂ hways hy
    exact .inr ⟨b, hb, y, hway, hfails⟩
  | @switch condition cases cases' fallback fallback' hcases hfallback =>
    have hselect := Executable.rel_select hcases hfallback (Executable.conditionIn condition input)
    have hchosen : (mk id signature (.switch condition cases fallback)).chosen input =
      (Executable.select cases fallback (Executable.conditionIn condition input)).toList := rfl
    rw [hchosen]
    rcases Executable.exists_of_runSwitch_eq_error h with ⟨hnone, rfl⟩ | ⟨y, hy, hfails⟩
    · rw [hnone] at hselect
      generalize Executable.select cases fallback _ = selected at hselect
      cases hselect
      exact .inl ⟨rfl, _, _, rfl⟩
    · rw [hy] at hselect
      generalize Executable.select cases fallback _ = selected at hselect
      cases hselect with
      | @some b _ hway => exact .inr ⟨b, Option.mem_toList.2 rfl, y, hway, hfails⟩
  | sequential _ | subWorkflow _ | llm _ | tool _ | http | jsonExtract _ =>
    rcases htype with htype | htype <;> cases htype

/-! ## Derived inputs -/

/-- The first declaration of an input among the children. -/
def firstInput? (m : Module) (name : String) : Option ValueSpec :=
  (m.kind.children.flatMap fun b => b.signature.input).find? fun t => t.name == name

variable {r : Resolver} {s : ModuleSpec} {m : Module}

/-- The inputs of a module that derives them declare every name as the children do first. -/
theorem find?_input_of_derived (hyields : s.Yields r m)
    (htype : s.kind.type = .parallel ∨ s.kind.type = .switch) (hderived : s.signature.input = [])
    {name : String} {first : ValueSpec} (h : m.firstInput? name = some first) :
    (m.signature.input.find? fun t => t.name == name) = some first := by
  obtain ⟨id, declared, kind⟩ := s
  obtain ⟨_, kind', hrel, rfl⟩ := ModuleSpec.yields_mk_iff.1 hyields
  have hderive : ∀ children : List Module,
      ((children.flatMap fun b => b.signature.input).find? fun t => t.name == name) = some first →
        ((Signature.deriveSide declared.input ((children.map signature).map Signature.input)).find?
          fun t => t.name == name) = some first := by
    intro children hfirst
    rw [show declared.input = [] from hderived, Signature.find?_deriveSide_nil, List.map_map,
      ← List.flatMap_def]
    exact hfirst
  cases hrel with
  | parallel _ => exact hderive _ h
  | switch condition _ _ =>
    exact @Signature.find?_withCondition (some condition) _ _ _ (hderive _ h)
  | sequential _ | subWorkflow _ | llm _ | tool _ | http | jsonExtract _ =>
    rcases htype with htype | htype <;> cases htype

/-- If everything is bound that a module with derived inputs declares as required, whatever a child
declares and nothing is bound to is optional where it is declared first. -/
theorem exists_optional_of_unbound (hyields : s.Yields r m)
    (htype : s.kind.type = .parallel ∨ s.kind.type = .switch) (hderived : s.signature.input = [])
    {input : List Value}
    (hbound : ∀ spec ∈ m.signature.input, spec.optional = false → ∃ v ∈ input, v.name = spec.name)
    {b : Module} (hb : b ∈ m.kind.children) {spec : ValueSpec} (hspec : spec ∈ b.signature.input)
    (hunbound : ∀ v ∈ input, v.name ≠ spec.name) :
    ∃ first, m.firstInput? spec.name = some first ∧ first.optional = true := by
  have hdeclared : (m.firstInput? spec.name).isSome = true := by
    rw [firstInput?, List.find?_isSome]
    exact ⟨spec, List.mem_flatMap.2 ⟨b, hb, hspec⟩, beq_self_eq_true _⟩
  obtain ⟨first, hfirst⟩ := Option.isSome_iff_exists.1 hdeclared
  refine ⟨first, hfirst, ?_⟩
  by_contra hrequired
  have hfind := find?_input_of_derived hyields htype hderived hfirst
  have hname : first.name = spec.name := by simpa using List.find?_some hfind
  obtain ⟨v, hv, hvname⟩ :=
    hbound first (List.mem_of_find?_eq_some hfind) (Bool.not_eq_true _ ▸ hrequired)
  exact hunbound v hv (hvname.trans hname)

theorem get?_eq_none_iff {input : List Value} {name : String} :
    (ValueSet.mk input).get? name = none ↔ ∀ v ∈ input, v.name ≠ name := by
  rw [ValueSet.get?, List.find?_eq_none]
  simp only [beq_iff_eq, ne_eq]

/-- Whether derived inputs suffice for the branches of a compiled fan-out or switch, if the input
binds everything that the complete signature declares as required and the policy is strict:

1. the inputs of a branch that runs are resolved if each name that the branch requires is required
   where the children first declare it;
2. if they are not resolved, the branch requires an input that is optional where it is first
   declared, and nothing is bound to it;
3. in whatever way the module runs, it fails because it selects no branch, or because a branch that
   runs has inputs that are not resolved or fails on those that are. -/
theorem resolveInputs_of_derived {cache : CompileCache} (hcache : cache.Sound r) {depth : Nat}
    (hm : (s.compileWith (r.compileAt depth) cache).1 = .ok m)
    (htype : s.kind.type = .parallel ∨ s.kind.type = .switch) (hderived : s.signature.input = [])
    {input : List Value}
    (hbound : ∀ spec ∈ m.signature.input, spec.optional = false → ∃ v ∈ input, v.name = spec.name) :
    (∀ b ∈ m.chosen input, (∀ spec ∈ b.signature.input, spec.optional = false →
        ∀ first, m.firstInput? spec.name = some first → first.optional = false) →
      ∃ taken, resolveInputs b.id .empty .strict ⟨input⟩ b.signature.input = .ok taken) ∧
    (∀ b ∈ m.chosen input, ∀ e,
      resolveInputs b.id .empty .strict ⟨input⟩ b.signature.input = .error e →
        ∃ spec ∈ b.signature.input, spec.optional = false ∧
          e = .unresolvedInput (b.id ++ "." ++ spec.name) spec.name ∧
          (∀ v ∈ input, v.name ≠ spec.name) ∧
          ∃ first, m.firstInput? spec.name = some first ∧ first.optional = true) ∧
    ∀ x, m.RunsAs (fun c => c.policy = .strict) x → ∀ e, (x.run input).outcome = .error e →
      (m.chosen input = [] ∧ ∃ name value, e = .unmatchedCondition name value) ∨
      ∃ b ∈ m.chosen input,
        resolveInputs b.id .empty .strict ⟨input⟩ b.signature.input = .error e ∨
        ∃ y taken, b.RunsAs (fun c => c.policy = .strict) y ∧
          resolveInputs b.id .empty .strict ⟨input⟩ b.signature.input = .ok taken ∧
          (y.run taken).outcome = .error e := by
  have hyields : s.Yields r m := Resolver.yields_of_compileWith_eq_ok hcache hm
  have hfails : ∀ b ∈ m.chosen input, ∀ e,
      resolveInputs b.id .empty .strict ⟨input⟩ b.signature.input = .error e →
        ∃ spec ∈ b.signature.input, spec.optional = false ∧
          e = .unresolvedInput (b.id ++ "." ++ spec.name) spec.name ∧
          (∀ v ∈ input, v.name ≠ spec.name) ∧
          ∃ first, m.firstInput? spec.name = some first ∧ first.optional = true := by
    intro b hb e he
    obtain ⟨_, spec, hspec, hrequired, hnone, rfl⟩ := Executable.exists_of_resolveInputs_eq_error he
    have hunbound := get?_eq_none_iff.1 hnone
    exact ⟨spec, hspec, hrequired, rfl, hunbound, exists_optional_of_unbound hyields htype hderived
      hbound (mem_children_of_mem_chosen hb) hspec hunbound⟩
  refine ⟨?_, hfails, ?_⟩
  · intro b hb hfirst
    cases hresolve : resolveInputs b.id .empty .strict ⟨input⟩ b.signature.input with
    | ok taken => exact ⟨taken, rfl⟩
    | error e =>
      obtain ⟨spec, hspec, hrequired, _, _, first, hfind, hoptional⟩ := hfails b hb e hresolve
      rw [hfirst spec hspec hrequired first hfind] at hoptional
      cases hoptional
  · intro x hx e he
    have htype' : m.type = .parallel ∨ m.type = .switch := by
      obtain ⟨id, declared, kind⟩ := s
      obtain ⟨_, kind', hrel, rfl⟩ := ModuleSpec.yields_mk_iff.1 hyields
      cases hrel <;> exact htype
    rcases exists_chosen_of_run_eq_error htype' hx he with hnone | ⟨b, hb, y, hway, hfail⟩
    · exact .inl hnone
    · rw [Executable.FailsIn, hway.id_eq, hway.signature_eq] at hfail
      rcases hfail with hresolve | ⟨taken, htaken, hrun⟩
      · exact .inr ⟨b, hb, .inl hresolve⟩
      · exact .inr ⟨b, hb, .inr ⟨y, taken, hway, htaken, hrun⟩⟩

/-- The specification of a fan-out of two calls of one tool, each with an input of its own and
without inputs declared for the whole. -/
def askBoth (first second : ValueSpec) : ModuleSpec :=
  .mk "both" .empty (.parallel [.tool "a" "ping" [first] (.required "one" .integer),
    .tool "b" "ping" [second] (.required "two" .integer)])

/-- The fan-out that it compiles to. -/
def askingBoth (first second : ValueSpec) : Module :=
  let calls : List Module :=
    [.mk "a" (.ofSides [first] [.required "one" .integer]) (.tool "ping"),
      .mk "b" (.ofSides [second] [.required "two" .integer]) (.tool "ping")]
  .mk "both" (Signature.empty.composite none (calls.map signature)) (.parallel calls)

/-- If the first call requires what the second may go without, both calls get what is bound. -/
theorem resolveInputs_requiredFirst :
    let x : Value := ⟨.required "x" .any, .integer 1⟩
    let m : Module := askingBoth (.required "x" .any) ⟨"x", .any, true⟩
    ((askBoth (.required "x" .any) ⟨"x", .any, true⟩).compileWith
      (Resolver.compileAt .empty 0) .empty).1 = .ok m ∧
    ∀ b ∈ m.chosen [x], ∃ taken,
      resolveInputs b.id .empty .strict ⟨[x]⟩ b.signature.input = .ok taken := by
  intro x m
  have hcompiles : ((askBoth (.required "x" .any) ⟨"x", .any, true⟩).compileWith
      (Resolver.compileAt .empty 0) .empty).1 = .ok m := rfl
  have hbound : ∀ spec ∈ m.signature.input, spec.optional = false →
      ∃ v ∈ [x], v.name = spec.name := by decide
  obtain ⟨hresolved, -⟩ := resolveInputs_of_derived (CompileCache.sound_empty .empty) hcompiles
    (.inl rfl) rfl hbound
  have hfirst : ∀ b ∈ m.chosen [x], ∀ spec ∈ b.signature.input, spec.optional = false →
      ∀ first ∈ m.firstInput? spec.name, first.optional = false := by decide
  exact ⟨hcompiles, fun b hb => hresolved b hb (hfirst b hb)⟩

/-- If the first call may go without what the second requires, so may the fan-out as it is declared,
and then it fails. -/
theorem resolveInputs_optionalFirst :
    let c : Context := { Context.new "run" with
      tools := .ofList [.ofFunction "ping" fun _ => .ok (.integer 1)], policy := .strict }
    let m : Module := askingBoth ⟨"x", .any, true⟩ (.required "x" .any)
    ((askBoth ⟨"x", .any, true⟩ (.required "x" .any)).compileWith
      (Resolver.compileAt .empty 0) .empty).1 = .ok m ∧
    (∀ spec ∈ m.signature.input, spec.optional = false →
      ∃ v ∈ ([] : List Value), v.name = spec.name) ∧
    Executable.resolveBranches .strict ⟨[]⟩ ((m.chosen []).map (executable c)) =
      .error (.unresolvedInput "b.x" "x") ∧
    (m.run c []).outcome = .error (.unresolvedInput "b.x" "x") := by
  intro c m
  exact ⟨rfl, by decide, rfl, rfl⟩

end Module

end WorkflowEngine
