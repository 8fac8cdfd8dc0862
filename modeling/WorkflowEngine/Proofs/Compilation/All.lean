import WorkflowEngine.Proofs.Compilation.Main

/-!
# Compiling a whole registry

All names of a registry are compiled one after another with one cache, which a failure in between
leaves partly filled. Nevertheless every name fares as it does on its own.
-/

namespace WorkflowEngine

namespace Registry

variable {r : Resolver} {cache : CompileCache} {ids : List ModuleId}

/-- The failure to report for a name. -/
def failure? {α : Type} (id : ModuleId) : Except CompileFailure α →
    Option (ModuleId × CompileFailure)
  | .ok _ => none
  | .error e => some (id, e)

/-- A failure is reported under the name that was compiled. -/
theorem failure?_eq_some_iff {α : Type} {id : ModuleId} {x : Except CompileFailure α}
    {f : ModuleId × CompileFailure} : failure? id x = some f ↔ f.1 = id ∧ x = .error f.2 := by
  obtain ⟨id', e'⟩ := f
  cases x with
  | ok a => simp [failure?]
  | error e => simp [failure?, eq_comm]

/-- A name adds its failure, and the cache it leaves serves the names after it. -/
theorem compileEach_cons {id : ModuleId} :
    compileEach r cache (id :: ids) =
      ((failure? id (r.compileReference id cache).1).toList ++
          (compileEach r (r.compileReference id cache).2 ids).1,
        (compileEach r (r.compileReference id cache).2 ids).2) := by
  rw [compileEach]
  split
  · next h => rw [h]; rfl
  · next h => rw [h]; rfl

/-- With a valid cache, every name of a list fails or succeeds as it does without a cache. The cache
stays valid, and in the end it holds the names that succeed. -/
theorem compileEach_correct (ids : List ModuleId) (hown : r.OwnNames) (hvalid : cache.Valid r)
    (hpending : cache.pending = []) :
    (compileEach r cache ids).1 =
        ids.filterMap (fun id => failure? id (r.uncachedAt r.depth [] id)) ∧
      (compileEach r cache ids).2.Valid r ∧
      (∀ id, cache.Holds id → (compileEach r cache ids).2.Holds id) ∧
      ∀ id ∈ ids, Succeeds (r.uncachedAt r.depth [] id) → (compileEach r cache ids).2.Holds id := by
  induction ids generalizing cache with
  | nil => exact ⟨rfl, hvalid, fun _ h => h, fun _ h => absurd h List.not_mem_nil⟩
  | cons id rest ih =>
    have hstep := @Resolver.simulates_compileReference r id cache hown hvalid hpending
    obtain ⟨hfailures, hvalid', hgrows, hkept⟩ := ih hstep.valid (hstep.pending.trans hpending)
    rw [compileEach_cons, hfailures, hstep.outcome]
    refine ⟨?_, hvalid', ?_, ?_⟩
    · rw [List.filterMap_cons]
      cases failure? id (r.uncachedAt r.depth [] id) <;> rfl
    · intro x hx
      exact hgrows x (hstep.holds hx)
    · intro x hx hs
      rcases List.mem_cons.1 hx with rfl | hx
      · have hkept' := hstep.kept hs x (List.mem_singleton_self x)
        exact hgrows x hkept'
      · exact hkept x hx hs

/-- The table of a whole registry has for each name what the name compiles to. -/
theorem find?_compileAll_eq_some_iff {r : Registry} {id : ModuleId} {m : Module} :
    r.compileAll.table.find? id = some m ↔ r.resolver.CompilesTo id m := by
  have hown := r.ownNames_resolver
  obtain ⟨-, hvalid, -, hkept⟩ :=
    compileEach_correct r.keys hown (CompileCache.valid_empty r.resolver) rfl
  rw [show r.compileAll.table.find? id = _ from Resolver.find?_table hown hvalid]
  refine ⟨hvalid.sound id m, ?_⟩
  intro hm
  obtain ⟨s, hs⟩ := (hm.compilable hown).resolved id .refl
  rw [get?_resolver] at hs
  have hid : id ∈ r.keys := Ascending.mem_keys_iff.2 ⟨s, hs⟩
  have hfresh := (Resolver.uncachedAt_depth_eq_ok_iff hown).2 hm
  obtain ⟨m', hm'⟩ := hkept id hid ⟨m, hfresh⟩
  have hm'' : m' = m := (hvalid.sound id m' hm').unique hown hm
  rw [hm', hm'']

/-- The failures of a whole registry are those of its names on their own. -/
theorem mem_failures_compileAll_iff {r : Registry} {id : ModuleId} {e : CompileFailure} :
    (id, e) ∈ r.compileAll.failures ↔
      id ∈ r.keys ∧ r.resolver.compileMain id = .error e := by
  have hown := r.ownNames_resolver
  have hvalid := CompileCache.valid_empty r.resolver
  rw [show r.compileAll.failures = _ from (compileEach_correct r.keys hown hvalid rfl).1,
    List.mem_filterMap, Resolver.compileMain_eq_error_iff hown]
  simp only [failure?_eq_some_iff]
  constructor
  · rintro ⟨_, hid, rfl, he⟩
    exact ⟨hid, he⟩
  · rintro ⟨hid, he⟩
    exact ⟨id, hid, rfl, he⟩

/-- A registered name fails exactly when it is not compilable. -/
theorem exists_failure_iff {r : Registry} {id : ModuleId} (hid : id ∈ r.keys) :
    (∃ e, (id, e) ∈ r.compileAll.failures) ↔ ¬ r.resolver.Compilable id := by
  rw [← Resolver.compileMain_succeeds_iff r.ownNames_resolver]
  simp only [mem_failures_compileAll_iff, and_iff_right hid]
  cases r.resolver.compileMain id with
  | ok t => exact iff_of_false (fun ⟨_, h⟩ => nomatch h) fun h => h ⟨t, rfl⟩
  | error e => exact iff_of_true ⟨e, rfl⟩ fun ⟨_, h⟩ => nomatch h

/-- Compiling all of a registry is compiling each of its names on its own:

1. the table has the names that compile on their own, each with the module of its own table;
2. the failures are those of the registered names, each with the failure it has on its own;
3. they are listed in ascending order of the names;
4. every failure is an error. -/
theorem compileAll_correct (r : Registry) :
    (∀ id, (r.compileAll.table.contains id ↔ ∃ t, r.resolver.compileMain id = .ok t) ∧
      ∀ t, r.resolver.compileMain id = .ok t →
        ∃ m, t.find? id = some m ∧ r.compileAll.table.find? id = some m) ∧
    (∀ id e, (id, e) ∈ r.compileAll.failures ↔
      id ∈ r.keys ∧ r.resolver.compileMain id = .error e) ∧
    r.compileAll.failures.Pairwise (fun f g => f.1 < g.1) ∧
    ∀ id e, (id, e) ∈ r.compileAll.failures → ∃ cause, e = .error cause := by
  have hown := r.ownNames_resolver
  have hvalid := CompileCache.valid_empty r.resolver
  refine ⟨fun id => ⟨?_, ?_⟩, fun _ _ => mem_failures_compileAll_iff, ?_, ?_⟩
  · simp only [Ascending.contains_iff, find?_compileAll_eq_some_iff]
    constructor
    · rintro ⟨m, hm⟩
      exact (Resolver.compileMain_succeeds_iff hown).2 (hm.compilable hown)
    · rintro ⟨t, ht⟩
      obtain ⟨m, hm, _⟩ := Resolver.exists_of_compileMain_eq_ok hown ht
      exact ⟨m, hm⟩
  · intro t ht
    obtain ⟨m, hm, hfind⟩ := Resolver.exists_of_compileMain_eq_ok hown ht
    exact ⟨m, hfind, find?_compileAll_eq_some_iff.2 hm⟩
  · rw [show r.compileAll.failures = _ from (compileEach_correct r.keys hown hvalid rfl).1,
      List.pairwise_filterMap]
    apply r.pairwise_keys.imp
    intro a b hlt f hf g hg
    rw [(failure?_eq_some_iff.1 hf).1, (failure?_eq_some_iff.1 hg).1]
    exact hlt
  · intro id e h
    cases e with
    | error cause => exact ⟨cause, rfl⟩
    | endless t =>
      have herror := (mem_failures_compileAll_iff.1 h).2
      exact absurd herror (Resolver.compileMain_ne_endless hown t)

end Registry

end WorkflowEngine
