import WorkflowEngine.Proofs.Compilation.Kept

/-!
# Specifications without references

Expanding a specification puts specifications in place of its references. A name is inlined by
expanding its specification with the inlined targets; what comes of that is unique, has no reference
left, and is there for every name that has a module.
-/

namespace WorkflowEngine

/-- Only a call has a target. -/
theorem Kind.eq_subWorkflow_of_target? {ρ α : Type} {kind : Kind ρ α} {t : ρ}
    (h : kind.target? = some t) : kind = .subWorkflow t := by
  cases kind with
  | subWorkflow target =>
    cases h
    rfl
  | sequential _ | parallel _ | switch _ _ _ | llm _ | tool _ | http | jsonExtract _ => cases h

namespace ModuleSpec

/-- Puts specifications in place of all references. -/
def expand (target : ModuleId → ModuleSpec) : ModuleSpec → ModuleSpec :=
  fold fun id signature kind =>
    match kind.target? with
    | some t => target t
    | none => .mk id signature kind

variable {target target' : ModuleId → ModuleSpec} {id : ModuleId} {signature : Signature}
  {kind : Kind ModuleId ModuleSpec}

/-- A reference is replaced as a whole. -/
theorem expand_of_some {t : ModuleId} (h : kind.target? = some t) :
    (mk id signature kind).expand target = target t := by
  rw [expand, fold_mk, Kind.target?_map, h]
  rfl

/-- Of any other module the children are expanded. -/
theorem expand_of_none (h : kind.target? = none) :
    (mk id signature kind).expand target =
      .mk id signature (kind.map (fun t => t) (expand target)) := by
  rw [expand, fold_mk, Kind.target?_map, h]
  rfl

/-- The targets that are left are those of the specifications put in. -/
theorem targets_expand (target : ModuleId → ModuleSpec) (s : ModuleSpec) :
    (s.expand target).targets = s.targets.flatMap fun t => (target t).targets := by
  induction s using induct with
  | step id signature kind ih =>
    cases h : kind.target? with
    | some t =>
      rw [expand_of_some h, targets_mk, Kind.eq_subWorkflow_of_target? h]
      simp [Kind.target?, Kind.children]
    | none =>
      rw [expand_of_none h, targets_mk, targets_mk, Kind.target?_map, Kind.children_map, h,
        List.flatMap_map]
      simp only [Option.map_none, Option.toList_none, List.nil_append, List.flatMap_assoc]
      exact List.flatMap_congr ih

/-- Only what is put in place of a target matters. -/
theorem expand_congr {s : ModuleSpec} (h : ∀ t ∈ s.targets, target t = target' t) :
    s.expand target = s.expand target' := by
  induction s using induct with
  | step id signature kind ih =>
    rw [targets_mk] at h
    cases htarget : kind.target? with
    | some t =>
      rw [expand_of_some htarget, expand_of_some htarget]
      exact h t (List.mem_append_left _ (Option.mem_toList.2 htarget))
    | none =>
      rw [expand_of_none htarget, expand_of_none htarget]
      refine congrArg (mk id signature) (Kind.map_congr fun c hc => ih c hc fun t ht => ?_)
      exact h t (List.mem_append_right _ (List.mem_flatMap.2 ⟨c, hc, ht⟩))

/-- A specification without targets compiles in the same way whatever the resolver is and whatever
has been compiled, and leaves that as it is. -/
theorem compileSpec_of_targets_eq_nil {s : ModuleSpec} (hs : s.targets = [])
    (reference : ModuleId → Except CompileFailure Module) (r : Resolver) (cache : CompileCache) :
    r.compileSpec s cache = (s.compileWith reference, cache) := by
  have hfixed : Respected fun α _ (x : Compiling α) (y : Except CompileFailure α) =>
      ∀ cache, x cache = (y, cache) := by
    refine ⟨fun a cache => rfl, fun fault cache => rfl, fun {α β _ _ x y f g} hxy hfg cache => ?_⟩
    cases y with
    | error e => exact Compiling.bind_of_error (hxy cache)
    | ok a => exact (Compiling.bind_of_ok (hxy cache)).trans (hfg a cache)
  have hrun := @Respected.compileWith _ _ _ _ _ _ _ hfixed _ _ (r.compileAt r.depth) reference s
    (fun t ht => absurd (hs ▸ ht) List.not_mem_nil) (cache.push s.id)
  have hpop : (cache.push s.id).pop = cache := by
    show CompileCache.mk (cache.pending ++ [s.id]).dropLast cache.done = cache
    rw [List.dropLast_concat]
  rw [Resolver.compileSpec, Compiling.within, hrun]
  exact congrArg (Prod.mk _) hpop

end ModuleSpec

namespace Resolver

/-- What a name is when it is inlined: its specification, in which every reference has been replaced
by its inlined target. -/
inductive Inlines (r : Resolver) : ModuleId → ModuleSpec → Prop where
  /-- All targets are inlined. -/
  | intro {id : ModuleId} {s : ModuleSpec} {target : ModuleId → ModuleSpec}
    (hs : r.get? id = some s) (htargets : ∀ t ∈ s.targets, Inlines r t (target t)) :
    Inlines r id (s.expand target)

variable {r : Resolver} {id : ModuleId} {s : ModuleSpec}

/-- A name is inlined by expanding its specification. -/
theorem Inlines.exists_expand {s' : ModuleSpec} (h : r.Inlines id s') (hs : r.get? id = some s) :
    ∃ target, s' = s.expand target ∧ ∀ t ∈ s.targets, r.Inlines t (target t) := by
  cases h with
  | @intro _ _ target hs' htargets =>
    cases hs.symm.trans hs'
    exact ⟨target, rfl, htargets⟩

/-- A name is inlined to one specification only. -/
theorem Inlines.unique {s' s'' : ModuleSpec} (h : r.Inlines id s') (h' : r.Inlines id s'') :
    s' = s'' := by
  induction h generalizing s'' with
  | intro hs _ ih =>
    obtain ⟨target', rfl, htargets'⟩ := h'.exists_expand hs
    exact ModuleSpec.expand_congr fun t ht => ih t ht (htargets' t ht)

/-- No reference is left. -/
theorem Inlines.targets_eq_nil {s' : ModuleSpec} (h : r.Inlines id s') : s'.targets = [] := by
  induction h with
  | intro _ _ ih =>
    rw [ModuleSpec.targets_expand, List.flatMap_eq_nil_iff]
    exact ih

/-- A name that has a module can be inlined. -/
theorem Yields.exists_inlines {m : Module} (h : r.Yields id m) : ∃ s', r.Inlines id s' := by
  induction h with
  | @intro id s m reference hs _ h ih =>
    have hsucceeds := (ModuleSpec.succeeds_compileWith_iff.1 ⟨m, h⟩).2
    have htargets : ∀ t ∈ s.targets, ∃ s', r.Inlines t s' := by
      intro t ht
      obtain ⟨n, hn⟩ := hsucceeds t ht
      exact ih t n hn
    choose! target htarget using htargets
    exact ⟨_, .intro hs htarget⟩

end Resolver

end WorkflowEngine
