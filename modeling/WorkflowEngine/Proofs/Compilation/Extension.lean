import WorkflowEngine.Proofs.Compilation.All

/-!
# Registering more specifications

Registering further specifications changes nothing about a name that compiled before, and nothing
about one that failed, unless it failed for want of one of the new specifications: compiling a name
looks at what the name reaches and at nothing else. The new specifications may be broken or refer to
one another in circles.
-/

namespace WorkflowEngine

namespace Resolver

variable {r r' : Resolver} {id : ModuleId}

/-- A resolver that extends another binds at least as many names. -/
theorem ExtendedBy.size_le (h : r.ExtendedBy r') : r.size ≤ r'.size := by
  have hkeys : ∀ id ∈ r.keys, id ∈ r'.keys := by
    intro id hid
    obtain ⟨⟨k, s⟩, hfind⟩ := Ascending.mem_keys_iff.1 hid
    obtain ⟨p, hp, -⟩ := Option.map_eq_some_iff.1 (h id s (congrArg (Option.map Prod.snd) hfind))
    exact Ascending.mem_keys_iff.2 ⟨p, hp⟩
  rw [← Ascending.length_keys, ← Ascending.length_keys]
  exact (r.nodup_keys.subperm hkeys).length_le

/-- In a resolver that extends another, references may be followed at least as deep. -/
theorem ExtendedBy.depth_le (h : r.ExtendedBy r') : r.depth ≤ r'.depth := by
  have hsize := h.size_le
  unfold depth
  omega

/-- Among more specifications a name has the outcome that it had, unless it failed for want of a
specification that is among them now. -/
theorem compileMain_eq_of_extendedBy (hext : r.ExtendedBy r') (hown : r.OwnNames) :
    (∃ t, r.get? t = none ∧ (∃ s, r'.get? t = some s) ∧
      r.compileMain id = .error (.error (.unresolvedReference t))) ∨
    r'.compileMain id = r.compileMain id := by
  rcases @compileAt_eq_of_extendedBy r r' _ _ id .empty hext hext.depth_le with
    ⟨e, hremedied, he⟩ | hsame
  · have hfail : r.compileMain id = .error e := by
      unfold compileMain compileReference
      generalize r.compileAt r.depth id .empty = run at he ⊢
      obtain ⟨outcome, cache⟩ := run
      cases he
      rfl
    cases hremedied with
    | endless t => exact absurd hfail (compileMain_ne_endless hown t)
    | @unresolved t s hs hs' => exact .inl ⟨t, hs, ⟨s, hs'⟩, hfail⟩
  · right
    unfold compileMain compileReference
    rw [hsame]

end Resolver

namespace Registry

variable {r r' : Registry} {specs : List ModuleSpec}

/-- What registering specifications does: what was registered stays, and what is new is one of
them, under a name that was free. -/
structure Grown (r r' : Registry) (specs : List ModuleSpec) : Prop where
  /-- What was registered stays registered. -/
  retained : ∀ id s, r.find? id = some s → r'.find? id = some s
  /-- Every other specification is one of the new ones. -/
  introduced : ∀ id s, r'.find? id = some s → r.find? id = none → s ∈ specs ∧ s.id = id

theorem Grown.extendedBy (h : r.Grown r' specs) : r.resolver.ExtendedBy r'.resolver := by
  intro id s hs
  rw [get?_resolver] at hs ⊢
  exact h.retained id s hs

/-- Registering a specification adds it and nothing else. -/
theorem grown_of_register_eq_ok {s : ModuleSpec} (h : r.register s = .ok r') : r.Grown r' [s] := by
  unfold register at h
  split at h
  · cases h
  · next hfree =>
    cases h
    constructor
    · intro id s' hs'
      have hne : s.id ≠ id := by
        rintro rfl
        exact hfree (Ascending.contains_iff.2 ⟨s', hs'⟩)
      rw [Ascending.find?_insert_of_ne hne, hs']
    · intro id s' hs' hnone
      have hid : s.id = id := by
        by_contra hne
        rw [Ascending.find?_insert_of_ne hne, hnone] at hs'
        cases hs'
      subst hid
      rw [Ascending.find?_insert_self] at hs'
      cases hs'
      exact ⟨List.mem_singleton_self s, rfl⟩

/-- Registering a list of specifications adds these and nothing else. -/
theorem grown_of_registerAll_eq_ok (h : r.registerAll specs = .ok r') : r.Grown r' specs := by
  unfold registerAll at h
  induction specs generalizing r with
  | nil =>
    cases h
    exact ⟨fun _ _ hs => hs, fun id s hs hnone => by cases hs.symm.trans hnone⟩
  | cons s rest ih =>
    rw [List.foldlM_cons] at h
    obtain ⟨middle, hfirst, hrest⟩ := bind_eq_ok_iff.1 h
    have hs := grown_of_register_eq_ok hfirst
    have hgrown := ih hrest
    constructor
    · intro id s' hs'
      exact hgrown.retained id s' (hs.retained id s' hs')
    · intro id s' hs' hnone
      cases hmiddle : middle.find? id with
      | none =>
        obtain ⟨hmem, hid⟩ := hgrown.introduced id s' hs' hmiddle
        exact ⟨List.mem_cons_of_mem s hmem, hid⟩
      | some s'' =>
        cases hs'.symm.trans (hgrown.retained id s'' hmiddle)
        obtain ⟨hmem, hid⟩ := hs.introduced id s' hmiddle hnone
        rw [List.mem_singleton.1 hmem] at hid ⊢
        exact ⟨List.mem_cons_self, hid⟩

/-- What compiled before compiles to the same table. -/
theorem Grown.compileMain_eq_ok (h : r.Grown r' specs) {main : ModuleId} {t : ModuleTable}
    (ht : r.resolver.compileMain main = .ok t) : r'.resolver.compileMain main = .ok t := by
  rcases @Resolver.compileMain_eq_of_extendedBy _ _ main h.extendedBy r.ownNames_resolver with
    ⟨_, _, _, he⟩ | hsame
  · cases ht.symm.trans he
  · rw [hsame, ht]

/-- What failed before fails as it did, unless it missed one of the new specifications. -/
theorem Grown.compileMain_eq_error (h : r.Grown r' specs) {main : ModuleId} {e : CompileFailure}
    (hnew : ∀ s ∈ specs, e ≠ .error (.unresolvedReference s.id))
    (he : r.resolver.compileMain main = .error e) : r'.resolver.compileMain main = .error e := by
  rcases @Resolver.compileMain_eq_of_extendedBy _ _ main h.extendedBy r.ownNames_resolver with
    ⟨id, hnone, ⟨s, hs⟩, he'⟩ | hsame
  · rw [get?_resolver] at hnone hs
    obtain ⟨hmem, rfl⟩ := h.introduced id s hs hnone
    exact absurd (Except.error.inj (he.symm.trans he')) (hnew s hmem)
  · rw [hsame, he]

/-- Registering further specifications is conservative. A name

1. that compiled on its own compiles to the same table;
2. that failed fails with the same failure, unless that was a reference that was not resolved;
3. that failed at a reference that was not resolved fails there still, unless what was missing is
   one of the new specifications. -/
theorem compileMain_of_registerAll_eq_ok (h : r.registerAll specs = .ok r') (main : ModuleId) :
    (∀ t, r.resolver.compileMain main = .ok t → r'.resolver.compileMain main = .ok t) ∧
    (∀ e, (∀ id, e ≠ .error (.unresolvedReference id)) →
      r.resolver.compileMain main = .error e → r'.resolver.compileMain main = .error e) ∧
    (∀ id, (∀ s ∈ specs, s.id ≠ id) →
      r.resolver.compileMain main = .error (.error (.unresolvedReference id)) →
      r'.resolver.compileMain main = .error (.error (.unresolvedReference id))) := by
  have hgrown := grown_of_registerAll_eq_ok h
  refine ⟨fun t => hgrown.compileMain_eq_ok, ?_, ?_⟩
  · intro e hresolved he
    exact hgrown.compileMain_eq_error (fun s _ => hresolved s.id) he
  · intro id hnew he
    apply hgrown.compileMain_eq_error _ he
    intro s hs heq
    cases heq
    exact hnew s hs rfl

/-- A workflow that calls another, and one that calls itself. -/
def callers : Registry :=
  .ofList [.mk "main" .empty (.subWorkflow "leaf"), .mk "leaf" .empty .http,
    .mk "ring" .empty (.subWorkflow "ring")]

/-- With a broken specification and a second circle registered, the workflow that compiled and the
one that was a circle fare as before. -/
theorem compileMain_callers_of_registerAll :
    ∃ r t, callers.registerAll [.mk "broken" .empty (.llm "x"),
        .mk "circle" .empty (.subWorkflow "circle")] = .ok r ∧
      t.keys = ["leaf", "main"] ∧
      callers.resolver.compileMain "main" = .ok t ∧ r.resolver.compileMain "main" = .ok t ∧
      r.resolver.compileMain "ring" = .error (.error (.cyclicWorkflow ["ring", "ring"])) := by
  have h : callers.registerAll [.mk "broken" .empty (.llm "x"),
    .mk "circle" .empty (.subWorkflow "circle")] = .ok _ := rfl
  have hmain : (callers.resolver.compileMain "main").map Ascending.keys =
    .ok ["leaf", "main"] := by decide +kernel
  have hring : (callers.resolver.compileMain "ring").map Ascending.keys =
    .error (.error (.cyclicWorkflow ["ring", "ring"])) := by decide +kernel
  obtain ⟨t, ht, hkeys⟩ := map_eq_ok_iff.1 hmain
  refine ⟨_, t, h, hkeys, ht, (compileMain_of_registerAll_eq_ok h "main").1 t ht, ?_⟩
  exact (compileMain_of_registerAll_eq_ok h "ring").2.1 _ (fun _ => nofun)
    (map_eq_error_iff.1 hring)

end Registry

end WorkflowEngine
