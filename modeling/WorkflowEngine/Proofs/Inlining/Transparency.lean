import WorkflowEngine.Proofs.Inlining.Expansion
import WorkflowEngine.Proofs.Runs.Simulation

/-!
# Calls are transparent

Inlining a workflow changes nothing about what it does. The compiled workflow, which binds
references to modules, and the compiled inlined one, which has no references, take and give the same
and run alike; all that shows is that an input that is not resolved is reported for the call in the
one and for what is called in the other.
-/

namespace WorkflowEngine

/-- Lists whose items are mapped alike, place by place, are mapped alike. -/
theorem map_eq_map_of_forall₂ {α β γ : Type} {f : α → γ} {g : β → γ} {l : List α} {l' : List β}
    (h : List.Forall₂ (fun a b => f a = g b) l l') : l.map f = l'.map g := by
  rw [← List.forall₂_eq_eq_eq, List.forall₂_map_left_iff, List.forall₂_map_right_iff]
  exact h

namespace Signature

/-- Two signatures have the same sides. -/
structure SameSides (s t : Signature) : Prop where
  /-- They take the same. -/
  input : s.input = t.input
  /-- They give the same. -/
  output : s.output = t.output

/-- The sides of a composite depend on the sides of its children only. -/
theorem SameSides.composite {children children' : List Signature}
    (h : List.Forall₂ SameSides children children') (declared : Signature)
    (condition : Option String) :
    (declared.composite condition children).SameSides (declared.composite condition children') := by
  have hinput := map_eq_map_of_forall₂ (h.imp fun _ _ hs => hs.input)
  have houtput := map_eq_map_of_forall₂ (h.imp fun _ _ hs => hs.output)
  constructor
  · rw [Signature.composite, hinput]
    rfl
  · rw [Signature.composite, houtput]
    rfl

/-- The completed signatures of modules of one shape have the same sides if those of their children
and of the modules that they refer to have. -/
theorem SameSides.completed {kind kind' : Kind Module Module}
    (h : kind.Rel (fun m m' => m.signature.SameSides m'.signature)
      (fun m m' => m.signature.SameSides m'.signature) kind')
    (declared : Signature) (target : Option ModuleId) :
    (declared.completed target kind).SameSides (declared.completed target kind') := by
  have hchildren : List.Forall₂ SameSides (kind.children.map Module.signature)
      (kind'.children.map Module.signature) := by
    rw [List.forall₂_map_left_iff, List.forall₂_map_right_iff]
    exact h.children
  cases h with
  | parallel _ | switch _ _ _ => exact .composite hchildren declared _
  | subWorkflow hcallee => cases target <;> exact ⟨hcallee.input, hcallee.output⟩
  | sequential _ | llm _ | tool _ | http | jsonExtract _ => exact ⟨rfl, rfl⟩

end Signature

namespace Module

/-- Two modules match in all surroundings that answer alike. -/
def Matches (ids : ModuleId → ModuleId → Prop) (m m' : Module) : Prop :=
  ∀ c d : Context, c.Alike d → (m.executable c).Matches ids (m'.executable d)

variable {ids : ModuleId → ModuleId → Prop} {m m' : Module}

theorem Matches.sameSides (h : m.Matches ids m') : m.signature.SameSides m'.signature := by
  have hmatches := h (.new "") (.new "") (.refl _)
  constructor
  · simpa using hmatches.input
  · simpa using hmatches.output

/-- Modules of one shape match if their children and the modules that they refer to do. -/
theorem Matches.of_rel {id : ModuleId} (hid : ids id id) {kind kind' : Kind Module Module}
    (h : kind.Rel (Matches ids) (Matches ids) kind') (declared : Signature)
    (target : Option ModuleId) :
    (mk id (declared.completed target kind) kind).Matches ids
      (mk id (declared.completed target kind') kind') := by
  intro c d halike
  have hsides := Signature.SameSides.completed (h.imp (fun _ _ h => h.sameSides)
    fun _ _ h => h.sameSides) declared target
  have hmatches := h.map (fun _ _ h => h c d halike) fun _ _ h => h c d halike
  rw [executable, executable, fold_mk, fold_mk, ← Executable.ofKindBy_byTime,
    ← Executable.ofKindBy_byTime]
  exact Executable.matches_ofKindBy halike .byTime .byTime hid hsides.input hsides.output hmatches

/-- A call matches whatever matches the module called. -/
theorem Matches.call (h : m.Matches ids m') {id : ModuleId} (hid : ids id m'.id)
    (t : ModuleId) :
    (mk id (m.signature.withDependency t) (.subWorkflow m)).Matches ids m' := by
  intro c d halike
  have hmatches := h c d halike
  have hinput := hmatches.input
  have houtput := hmatches.output
  rw [signature_executable] at hinput houtput
  rw [executable, fold_mk]
  refine ⟨?_, hinput, houtput, hmatches.run⟩
  rw [id_executable]
  exact hid

end Module

namespace Resolver

/-- A specification stands somewhere in what a name reaches. -/
def Node (r : Resolver) (main : ModuleId) (n : ModuleSpec) : Prop :=
  ∃ x s, r.Reaches main x ∧ r.get? x = some s ∧ s.Contains n

/-- The name of a call in what a name reaches, and the name of what stands in the place of the call
when it is inlined. -/
def CallSite (r : Resolver) (main : ModuleId) (a b : ModuleId) : Prop :=
  ∃ n t s', r.Node main n ∧ n.kind.target? = some t ∧ r.Inlines t s' ∧ n.id = a ∧ s'.id = b

/-- Names that stand for each other when a name is inlined: equal ones, or a call's and that of what
is called. -/
def StandsFor (r : Resolver) (main : ModuleId) (a b : ModuleId) : Prop :=
  a = b ∨ r.CallSite main a b

variable {r : Resolver} {main : ModuleId}

/-- What is a child of a specification in what a name reaches stands there, too. -/
theorem Node.child {n c : ModuleSpec} (h : r.Node main n) (hc : c ∈ n.children) :
    r.Node main c := by
  obtain ⟨x, s, hx, hs, hn⟩ := h
  exact ⟨x, s, hx, hs, hn.trans (.child hc (.self c))⟩

/-- The specification of a call's target stands in what a name reaches if the call does. -/
theorem Node.target {n s : ModuleSpec} {t : ModuleId} (h : r.Node main n)
    (ht : n.kind.target? = some t) (hs : r.get? t = some s) : r.Node main s := by
  obtain ⟨x, root, hx, hroot, hn⟩ := h
  have hrefers : r.Refers x t :=
    refers_of_mem_targets hroot (ModuleSpec.mem_targets_iff.2 ⟨n, hn, ht⟩)
  exact ⟨t, s, hx.tail hrefers, hs, .self s⟩

/-- The module of a specification matches the module to which the specification compiles when it is
expanded with inlined targets. -/
theorem exists_matches_of_expand {s : ModuleSpec} {m : Module} (h : s.Yields r m)
    {target : ModuleId → ModuleSpec} (htargets : ∀ t ∈ s.targets, r.Inlines t (target t))
    (hnode : r.Node main s) (reference : ModuleId → Except CompileFailure Module) :
    ∃ m', (s.expand target).compileWith reference = .ok m' ∧
      m.Matches (r.StandsFor main) m' := by
  refine ModuleSpec.Yields.induct (Q := fun s m => ∀ target : ModuleId → ModuleSpec,
    (∀ t ∈ s.targets, r.Inlines t (target t)) → r.Node main s →
      ∃ m', (s.expand target).compileWith reference = .ok m' ∧ m.Matches (r.StandsFor main) m')
    ?_ h target htargets hnode
  intro id signature kind kind' hself hrel target htargets hnode
  rw [ModuleSpec.targets_mk] at htargets
  -- A reference makes room for what it calls; every other module keeps its shape.
  cases hkind : kind.target? with
  | some t =>
    have hinlines : r.Inlines t (target t) :=
      htargets t (List.mem_append_left _ (Option.mem_toList.2 hkind))
    obtain rfl := Kind.eq_subWorkflow_of_target? hkind
    cases hrel with
    | subWorkflow hcallee =>
      obtain ⟨s, hs, _, ih⟩ := hcallee
      obtain ⟨target', hexpand, htargets'⟩ := hinlines.exists_expand hs
      obtain ⟨m', hm', hmatches⟩ := ih target' htargets' (hnode.target rfl hs)
      rw [← hexpand] at hm'
      refine ⟨m', hm', hmatches.call ?_ t⟩
      have hid : m'.id = (target t).id := ModuleSpec.id_of_compileWith_eq_ok hm'
      exact .inr ⟨_, t, target t, hnode, rfl, hinlines, rfl, hid.symm⟩
  | none =>
    have hexpanded : ∃ kind'' : Kind Module Module,
        kind.Rel (fun t n => reference t = .ok n)
          (fun c n => (c.expand target).compileWith reference = .ok n) kind'' ∧
        kind'.Rel (Module.Matches (r.StandsFor main)) (Module.Matches (r.StandsFor main))
          kind'' := by
      refine hrel.exists_rel (fun t ht => absurd ht (hkind ▸ Option.not_mem_none t)) ?_
      intro c hc n hn
      refine hn.2 target (fun t ht => ?_) (hnode.child hc)
      exact htargets t (List.mem_append_right _ (List.mem_flatMap.2 ⟨c, hc, ht⟩))
    obtain ⟨kind'', hcompiles, hmatches⟩ := hexpanded
    rw [ModuleSpec.expand_of_none hkind]
    refine ⟨.mk id (signature.completed none kind'') kind'', ?_, ?_⟩
    · rw [ModuleSpec.compileWith_mk_eq_ok_iff]
      refine ⟨⟨hself.names, (Kind.compilable_map _ _ kind).2 hself.kind⟩, kind'', ?_, ?_⟩
      · exact Kind.rel_map_left_iff.2 hcompiles
      · rw [Kind.target?_map, hkind]
        rfl
    · exact .of_rel (.inl rfl) hmatches signature none

end Resolver

namespace Registry

/-- Calls of workflows are transparent. If a name compiles, with the module `m`, then

1. the name can be inlined, in one way, to a specification without references;
2. that compiles to a module `m'` whatever the resolver is and whatever has been compiled before,
   and needs nothing else to be compiled;
3. `m` and `m'` have the same inputs and the same outputs;
4. on every input, in surroundings of one policy that answer alike, they end with the same result or
   the same error and make the same calls, except that an input that is not resolved may be reported
   under the name of a call in the one and of what is called in the other. -/
theorem matches_of_inlines (r : Registry) {main : ModuleId} {table : ModuleTable}
    (h : r.resolver.compileMain main = .ok table) :
    ∃ m s' m', table.find? main = some m ∧
      (∀ s, r.resolver.Inlines main s ↔ s = s') ∧ s'.references.toList = [] ∧
      (∀ q cache, Resolver.compileSpec q s' cache = (.ok m', cache)) ∧
      m.signature.input = m'.signature.input ∧ m.signature.output = m'.signature.output ∧
      ∀ c d, c.Alike d → ∀ input,
        (m.run c input).Matches (r.resolver.StandsFor main) (m'.run d input) := by
  obtain ⟨m, hm, hfind⟩ := Resolver.exists_of_compileMain_eq_ok r.ownNames_resolver h
  obtain ⟨s, hs, hyields⟩ := Resolver.yields_iff.1 hm.yields
  obtain ⟨s', hinlines⟩ := hm.yields.exists_inlines
  obtain ⟨target, hexpand, htargets⟩ := hinlines.exists_expand hs
  have hnode : r.resolver.Node main s := ⟨main, s, .refl, hs, .self s⟩
  obtain ⟨m', hm', hmatches⟩ := Resolver.exists_matches_of_expand hyields htargets hnode
    r.resolver.result
  rw [← hexpand] at hm'
  refine ⟨m, s', m', hfind, ?_, ?_, ?_, hmatches.sameSides.input, hmatches.sameSides.output, ?_⟩
  · intro s
    constructor
    · exact fun hs => hs.unique hinlines
    · rintro rfl
      exact hinlines
  · rw [List.eq_nil_iff_forall_not_mem]
    intro t ht
    rw [ModuleSpec.mem_references_iff, hinlines.targets_eq_nil] at ht
    exact List.not_mem_nil ht
  · intro q cache
    rw [ModuleSpec.compileSpec_of_targets_eq_nil hinlines.targets_eq_nil r.resolver.result, hm']
  · intro c d halike input
    exact (hmatches c d halike).run input

/-- A registry in which one workflow calls another. -/
def calling : Registry :=
  .ofList [.mk "main" (.ofSides [] [.required "answer" .any])
      (.sequential [⟨.mk "ask" .empty (.subWorkflow "reply"), .empty⟩]),
    .llm "reply" "yes" [] (.required "answer" .string)]

/-- The calling workflow compiles, and can therefore be inlined. -/
theorem inlines_calling :
    ∃ table s', calling.resolver.compileMain "main" = .ok table ∧
      calling.resolver.Inlines "main" s' ∧ s'.references.toList = [] := by
  have hcompiles : (calling.resolver.compileMain "main").isOk = true := by decide +kernel
  cases h : calling.resolver.compileMain "main" with
  | error e =>
    rw [h] at hcompiles
    cases hcompiles
  | ok table =>
    obtain ⟨_, s', _, _, hinlines, hreferences, _⟩ := matches_of_inlines calling h
    exact ⟨table, s', rfl, (hinlines s').2 rfl, hreferences⟩

end Registry

end WorkflowEngine
