import WorkflowEngine.Proofs.Compilation.All
import WorkflowEngine.Proofs.Except
import WorkflowEngine.Proofs.Shapes

/-!
# What specifications compile to

A module has the shape of the specification from which it is compiled: what stands at a place of the
one is compiled from what stands at that place of the other, and a reference has become the module
of its target. So a resolver yields at most one module for each name, and whatever has been compiled
before, no compilation gives another.
-/

namespace WorkflowEngine

/-- The signature of a module, given the one that its specification declares, the target if it is a
reference, and what the module does. -/
def Signature.completed (declared : Signature) (target : Option ModuleId) :
    Kind Module Module → Signature
  | .sequential _ | .llm _ | .tool _ => declared
  | .parallel branches => declared.composite none (branches.map Module.signature)
  | .switch condition cases fallback =>
    declared.composite (some condition)
      ((Kind.switch (ρ := Module) condition cases fallback).children.map Module.signature)
  | .subWorkflow callee => target.elim callee.signature callee.signature.withDependency
  | .http => if declared.isEmpty then .http else declared
  | .jsonExtract _ => if declared.isEmpty then .jsonExtract else declared

namespace ModuleSpec

variable {reference : ModuleId → Except CompileFailure Module} {id : ModuleId}
  {signature : Signature} {m : Module}

/-- A leaf with one output compiles to itself. -/
theorem compileLeaf_eq_ok_iff {kind : Kind Module Module} :
    (compileLeaf id signature kind : Except CompileFailure Module) = .ok m ↔
      signature.output.length = 1 ∧ m = .mk id signature kind := by
  rw [← Signature.exists_singleOutput_iff id, compileLeaf, bind_eq_ok_iff]
  simp only [pure_eq_ok_iff, exists_and_right]
  refine and_congr_left fun _ => ?_
  exact succeeds_ofExcept_iff

/-- Cases compile place by place, if their keys are new and distinct. -/
theorem compileCases_eq_ok_iff {seen : List Payload}
    {cases : List (Case (Except CompileFailure Module))} {cases' : List (Case Module)} :
    compileCases id seen cases = .ok cases' ↔
      ((∀ c ∈ cases, c.key ∉ seen) ∧ (cases.map Case.key).Nodup) ∧
        List.Forall₂ (Case.Rel fun c n => c = .ok n) cases cases' := by
  constructor
  · intro h
    refine ⟨(succeeds_compileCases_iff.1 ⟨cases', h⟩).1, ?_⟩
    induction cases generalizing seen cases' with
    | nil =>
      rw [pure_eq_ok_iff.1 h]
      exact .nil
    | cons c rest ih =>
      rw [compileCases] at h
      split at h
      · cases h
      · obtain ⟨n, hn, h⟩ := bind_eq_ok_iff.1 h
        obtain ⟨rest', hrest, h⟩ := bind_eq_ok_iff.1 h
        rw [pure_eq_ok_iff.1 h]
        exact .cons ⟨rfl, hn⟩ (ih hrest)
  · rintro ⟨⟨hseen, hnodup⟩, h⟩
    induction h generalizing seen with
    | nil => rfl
    | @cons c d rest rest' hcd _ ih =>
      rw [List.map_cons, List.nodup_cons] at hnodup
      rw [compileCases, if_neg (hseen c List.mem_cons_self), hcd.child]
      refine bind_eq_ok_iff.2 ⟨d.child, rfl, bind_eq_ok_iff.2 ⟨rest', ih ?_ hnodup.2, ?_⟩⟩
      · intro c' hc' hmem
        rcases List.mem_cons.1 hmem with heq | hmem
        · exact hnodup.1 (heq ▸ List.mem_map_of_mem hc')
        · exact hseen c' (List.mem_cons_of_mem c hc') hmem
      · rw [hcd.key]
        rfl

/-- A module compiles to one of its shape, if it is declared as its kind demands. -/
theorem compileKind_eq_ok_iff {kind : Kind ModuleId (Except CompileFailure Module)} :
    compileKind reference id signature kind = .ok m ↔
      kind.Compilable signature ∧ ∃ kind',
        kind.Rel (fun t n => reference t = .ok n) (fun c n => c = .ok n) kind' ∧
          m = .mk id (signature.completed kind.target? kind') kind' := by
  constructor
  · intro h
    refine ⟨(succeeds_compileKind_iff.1 ⟨m, h⟩).1, ?_⟩
    cases kind with
    | sequential steps =>
      obtain ⟨steps', hsteps, h⟩ := bind_eq_ok_iff.1 h
      refine ⟨_, .sequential ((mapM_eq_ok_iff.1 hsteps).imp fun s t hst => ?_), pure_eq_ok_iff.1 h⟩
      obtain ⟨n, hn, ht⟩ := bind_eq_ok_iff.1 hst
      rw [pure_eq_ok_iff.1 ht]
      exact ⟨hn, rfl⟩
    | parallel branches =>
      obtain ⟨branches', hbranches, h⟩ := bind_eq_ok_iff.1 h
      exact ⟨_, .parallel (mapM_eq_ok_iff.1 hbranches), pure_eq_ok_iff.1 h⟩
    | switch condition cases fallback =>
      obtain ⟨cases', hcases, h⟩ := bind_eq_ok_iff.1 h
      obtain ⟨fallback', hfallback, h⟩ := bind_eq_ok_iff.1 h
      exact ⟨_, .switch condition (compileCases_eq_ok_iff.1 hcases).2
        (mapM_option_eq_ok_iff.1 hfallback), pure_eq_ok_iff.1 h⟩
    | subWorkflow target =>
      obtain ⟨callee, hcallee, h⟩ := bind_eq_ok_iff.1 h
      exact ⟨_, .subWorkflow hcallee, pure_eq_ok_iff.1 h⟩
    | llm template => exact ⟨_, .llm template, (compileLeaf_eq_ok_iff.1 h).2⟩
    | tool name =>
      rw [compileKind] at h
      split at h
      · cases h
      · exact ⟨_, .tool name, (compileLeaf_eq_ok_iff.1 h).2⟩
    | http => exact ⟨_, .http, pure_eq_ok_iff.1 h⟩
    | jsonExtract path => exact ⟨_, .jsonExtract path, (compileLeaf_eq_ok_iff.1 h).2⟩
  · rintro ⟨hdeclared, kind', hrel, rfl⟩
    cases hrel with
    | sequential hsteps =>
      refine bind_eq_ok_iff.2 ⟨_, mapM_eq_ok_iff.2 (hsteps.imp fun s t hst => ?_), rfl⟩
      refine bind_eq_ok_iff.2 ⟨_, hst.child, ?_⟩
      rw [hst.mapping]
      rfl
    | parallel hbranches => exact bind_eq_ok_iff.2 ⟨_, mapM_eq_ok_iff.2 hbranches, rfl⟩
    | @switch condition cases cases' fallback fallback' hcases hfallback =>
      have hnew : ∀ c ∈ cases, c.key ∉ [] := fun _ _ => List.not_mem_nil
      refine bind_eq_ok_iff.2 ⟨_, compileCases_eq_ok_iff.2 ⟨⟨hnew, hdeclared⟩, hcases⟩, ?_⟩
      exact bind_eq_ok_iff.2 ⟨_, mapM_option_eq_ok_iff.2 hfallback, rfl⟩
    | subWorkflow hcallee => exact bind_eq_ok_iff.2 ⟨_, hcallee, rfl⟩
    | llm template => exact compileLeaf_eq_ok_iff.2 ⟨hdeclared, rfl⟩
    | tool name =>
      rw [compileKind, if_neg hdeclared.1]
      exact compileLeaf_eq_ok_iff.2 ⟨hdeclared.2, rfl⟩
    | http => rfl
    | jsonExtract path =>
      refine compileLeaf_eq_ok_iff.2 ⟨?_, rfl⟩
      split
      · rfl
      · next hempty =>
        refine hdeclared.resolve_left fun h => hempty ?_
        rw [Signature.isEmpty, h.1, h.2]
        rfl

/-- A specification compiles to a module of its shape, if it is declared as its kind demands. -/
theorem compileWith_mk_eq_ok_iff {kind : Kind ModuleId ModuleSpec} :
    (ModuleSpec.mk id signature kind).compileWith reference = .ok m ↔
      (ModuleSpec.mk id signature kind).Compilable ∧ ∃ kind',
        kind.Rel (fun t n => reference t = .ok n) (fun s n => s.compileWith reference = .ok n)
          kind' ∧ m = .mk id (signature.completed kind.target? kind') kind' := by
  have hcheck : (ofExcept (signature.check id) : Except CompileFailure Unit) = .ok () ↔
      signature.ProperNames := by
    rw [← @Signature.check_eq_ok_iff_properNames id]
    cases signature.check id with
    | ok u => exact iff_of_true rfl rfl
    | error e => exact iff_of_false (fun h => nomatch h) fun h => nomatch h
  rw [compileWith, fold_mk, compileNode, bind_eq_ok_iff]
  simp only [compileKind_eq_ok_iff, Kind.compilable_map, Kind.rel_map_left_iff, Kind.target?_map,
    Option.map_id', exists_and_right]
  constructor
  · rintro ⟨⟨_, hnames⟩, hkind, hresult⟩
    exact ⟨⟨hcheck.1 hnames, hkind⟩, hresult⟩
  · rintro ⟨hself, hresult⟩
    exact ⟨⟨(), hcheck.2 hself.names⟩, hself.kind, hresult⟩

/-- What a specification compiles to is determined by what its targets compile to. -/
theorem compileWith_unique {reference' : ModuleId → Except CompileFailure Module} {s : ModuleSpec}
    (ht : ∀ t ∈ s.targets, ∀ n, reference t = .ok n → ∀ n', reference' t = .ok n' → n = n')
    (h : s.compileWith reference = .ok m) {m' : Module} (h' : s.compileWith reference' = .ok m') :
    m = m' := by
  have hunique : Respected fun α _ (x y : Except CompileFailure α) =>
      ∀ a, x = .ok a → ∀ b, y = .ok b → a = b := by
    refine ⟨fun a b hb c hc => ?_, fun fault b hb => (nomatch hb), fun hxy hfg b hb c hc => ?_⟩
    · exact (pure_eq_ok_iff.1 hb).trans (pure_eq_ok_iff.1 hc).symm
    · obtain ⟨a, ha, hb⟩ := bind_eq_ok_iff.1 hb
      obtain ⟨a', ha', hc⟩ := bind_eq_ok_iff.1 hc
      rw [← hxy a ha a' ha'] at hc
      exact hfg a b hb c hc
  exact hunique.compileWith ht m h m' h'

end ModuleSpec

namespace Resolver

/-- The module of a name: that of the specification bound to it, with the modules of its targets in
place of the references. -/
inductive Yields (r : Resolver) : ModuleId → Module → Prop where
  /-- The specification compiles by references that give the modules of their targets. -/
  | intro {id : ModuleId} {s : ModuleSpec} {m : Module}
    {reference : ModuleId → Except CompileFailure Module} (hs : r.get? id = some s)
    (hreference : ∀ t n, reference t = .ok n → Yields r t n)
    (h : s.compileWith reference = .ok m) : Yields r id m

variable {r : Resolver} {id : ModuleId} {m : Module}

/-- A name has one module at most. -/
theorem Yields.unique (h : r.Yields id m) {m' : Module} (h' : r.Yields id m') : m = m' := by
  induction h generalizing m' with
  | intro hs _ h ih =>
    cases h' with
    | intro hs' hreference' h' =>
      cases hs.symm.trans hs'
      exact ModuleSpec.compileWith_unique
        (fun t _ n hn n' hn' => ih t n hn (hreference' t n' hn')) h h'

/-- The module of a name, if there is one. -/
noncomputable def result (r : Resolver) (id : ModuleId) : Except CompileFailure Module :=
  open Classical in if h : ∃ m, r.Yields id m then .ok h.choose else .error (.endless id)

/-- What compiling without a cache gives for a name is its module. -/
theorem result_eq_ok_iff : r.result id = .ok m ↔ r.Yields id m := by
  unfold result
  split
  · next h =>
    rw [Except.ok.injEq]
    constructor
    · rintro rfl
      exact h.choose_spec
    · exact fun hm => h.choose_spec.unique hm
  · next h => exact iff_of_false (fun hm => nomatch hm) fun hm => h ⟨m, hm⟩

end Resolver

namespace ModuleSpec

/-- The module of a specification that need not be bound to a name: references have become the
modules of their targets. -/
def Yields (r : Resolver) (s : ModuleSpec) (m : Module) : Prop := s.compileWith r.result = .ok m

variable {r : Resolver} {s : ModuleSpec} {m : Module}

/-- A specification that compiles has the module it compiles to, if its targets have theirs. -/
theorem yields_of_compileWith_eq_ok {reference : ModuleId → Except CompileFailure Module}
    (hreference : ∀ t ∈ s.targets, ∀ n, reference t = .ok n → r.Yields t n)
    (h : s.compileWith reference = .ok m) : s.Yields r m :=
  compileWith_eq_ok_of_imp (fun t ht n hn => Resolver.result_eq_ok_iff.2 (hreference t ht n hn)) h

/-- The module of a specification has its shape and, place by place, the modules of its targets and
of its children. -/
theorem yields_mk_iff {id : ModuleId} {signature : Signature} {kind : Kind ModuleId ModuleSpec} :
    (ModuleSpec.mk id signature kind).Yields r m ↔
      (ModuleSpec.mk id signature kind).Compilable ∧ ∃ kind',
        kind.Rel r.Yields (ModuleSpec.Yields r) kind' ∧
          m = .mk id (signature.completed kind.target? kind') kind' := by
  rw [Yields, compileWith_mk_eq_ok_iff]
  simp only [Resolver.result_eq_ok_iff]
  rfl

end ModuleSpec

namespace Resolver

variable {r : Resolver} {id : ModuleId} {m : Module}

/-- The module of a name is that of its specification. -/
theorem yields_iff : r.Yields id m ↔ ∃ s, r.get? id = some s ∧ s.Yields r m := by
  constructor
  · rintro ⟨hs, hreference, h⟩
    exact ⟨_, hs, ModuleSpec.yields_of_compileWith_eq_ok (fun t _ => hreference t) h⟩
  · rintro ⟨s, hs, h⟩
    exact .intro hs (fun t n => result_eq_ok_iff.1) h

end Resolver

namespace Module

/-- Some specification compiles to the module. -/
def Compiled (r : Resolver) (m : Module) : Prop := ∃ s : ModuleSpec, s.Yields r m

variable {r : Resolver} {id : ModuleId} {signature : Signature} {kind : Kind Module Module}

/-- The signature of a compiled module completes one whose names are proper. -/
theorem Compiled.exists_declared (h : (mk id signature kind).Compiled r) :
    ∃ (declared : Signature) (target : Option ModuleId), declared.ProperNames ∧
      signature = declared.completed target kind := by
  obtain ⟨⟨id', declared, kind'⟩, h⟩ := h
  obtain ⟨hself, _, _, heq⟩ := ModuleSpec.yields_mk_iff.1 h
  cases heq
  exact ⟨declared, _, hself.names, rfl⟩

/-- The children of a compiled module are compiled. -/
theorem Compiled.child (h : (mk id signature kind).Compiled r) :
    ∀ m ∈ kind.children, m.Compiled r := by
  obtain ⟨⟨id', declared, kind'⟩, h⟩ := h
  obtain ⟨_, _, hrel, heq⟩ := ModuleSpec.yields_mk_iff.1 h
  cases heq
  exact (hrel.forall_right (p := fun _ => True) (fun _ _ _ => trivial) fun s _ h => ⟨s, h⟩).2

/-- A call has a compiled module, whose sides are those of the call. -/
theorem Compiled.callee {callee : Module} (h : (mk id signature (.subWorkflow callee)).Compiled r) :
    callee.Compiled r ∧ signature.input = callee.signature.input ∧
      signature.output = callee.signature.output := by
  obtain ⟨⟨id', declared, kind'⟩, h⟩ := h
  obtain ⟨_, _, hrel, heq⟩ := ModuleSpec.yields_mk_iff.1 h
  cases heq
  cases hrel with
  | subWorkflow hcallee =>
    obtain ⟨s, _, hs⟩ := Resolver.yields_iff.1 hcallee
    exact ⟨⟨s, hs⟩, rfl, rfl⟩

end Module

/-- What holds of a specification and its module whenever it holds of the children and their
modules, and of the specification of the target and its module, holds of every specification. -/
theorem ModuleSpec.Yields.induct {r : Resolver} {Q : ModuleSpec → Module → Prop}
    (step : ∀ id signature kind kind', (ModuleSpec.mk id signature kind).Compilable →
      Kind.Rel (fun t n => ∃ s, r.get? t = some s ∧ s.Yields r n ∧ Q s n)
        (fun s n => s.Yields r n ∧ Q s n) kind kind' →
      Q (.mk id signature kind) (.mk id (signature.completed kind.target? kind') kind'))
    {s : ModuleSpec} {m : Module} (h : s.Yields r m) : Q s m := by
  induction m using Module.induct generalizing s with
  | step _ _ _ hchildren htarget =>
    obtain ⟨id, signature, kind⟩ := s
    obtain ⟨hself, kind', hrel, heq⟩ := yields_mk_iff.1 h
    cases heq
    refine step _ _ _ _ hself (hrel.imp_of_mem ?_ ?_)
    · intro t _ n hn hyields
      obtain ⟨s, hs, hyields⟩ := Resolver.yields_iff.1 hyields
      exact ⟨s, hs, hyields, htarget n hn hyields⟩
    · intro s _ n hn hyields
      exact ⟨hyields, hchildren n hn hyields⟩

end WorkflowEngine
