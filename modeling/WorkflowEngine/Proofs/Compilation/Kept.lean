import WorkflowEngine.Proofs.Compilation.Results

/-!
# What compilation produces

A cache is sound when every module kept is the module of its name. Whatever names are being compiled
and however deep references are followed, each step of a compilation keeps a sound cache sound and
gives the module of what is compiled, or fails. This needs no assumption about the names to which
specifications are bound.
-/

namespace WorkflowEngine

/-- Every module kept is the module of its name. -/
def CompileCache.Sound (r : Resolver) (cache : CompileCache) : Prop :=
  ∀ id m, cache.done.get? id = some m → r.Yields id m

namespace CompileCache

theorem sound_empty (r : Resolver) : empty.Sound r := fun _ _ h => nomatch h

/-- A cache stays sound when a name is kept with its module. -/
theorem Sound.keep {r : Resolver} {cache : CompileCache} (h : cache.Sound r) {id : ModuleId}
    {m : Module} (hm : r.Yields id m) : (cache.keep id m).Sound r := by
  intro x m' hx
  rw [get?_keep] at hx
  split at hx
  · next he =>
    cases hx
    exact he ▸ hm
  · exact h x m' hx

end CompileCache

namespace Resolver

variable {r : Resolver} {cache : CompileCache} {depth : Nat} {id : ModuleId} {m : Module}

/-- A step that keeps the cache sound and whose results are those of another computation. -/
structure Produces {α : Type} (r : Resolver) (fresh : Except CompileFailure α)
    (run : Except CompileFailure α × CompileCache) : Prop where
  /-- The cache is sound. -/
  sound : run.2.Sound r
  /-- A result is that of the other computation. -/
  result : ∀ a, run.1 = .ok a → fresh = .ok a

/-- Steps that produce nothing but the results of other computations are respected. -/
theorem respected_produces (r : Resolver) :
    ModuleSpec.Respected fun α _ (x : Compiling α) (fresh : Except CompileFailure α) =>
      ∀ cache : CompileCache, cache.Sound r → r.Produces fresh (x cache) where
  pure := fun _ _ hsound => ⟨hsound, fun _ h => h⟩
  fail := fun _ _ hsound => ⟨hsound, fun _ h => h⟩
  bind := fun {α β _ _ x fresh f g} hx hf cache hsound => by
    obtain ⟨hmiddle, hresult⟩ := hx cache hsound
    cases hrun : x cache with
    | mk outcome middle =>
      rw [hrun] at hmiddle hresult
      cases outcome with
      | error e =>
        rw [Compiling.bind_of_error hrun]
        exact ⟨hmiddle, fun _ h => nomatch h⟩
      | ok a =>
        rw [Compiling.bind_of_ok hrun, hresult a rfl]
        exact hf a middle hmiddle

/-- A specification is compiled to its module if names are. -/
theorem produces_compileWith {s : ModuleSpec}
    (h : ∀ t, ∀ cache : CompileCache, cache.Sound r →
      r.Produces (r.result t) (r.compileAt depth t cache)) (hsound : cache.Sound r) :
    r.Produces (s.compileWith r.result) (s.compileWith (r.compileAt depth) cache) :=
  (respected_produces r).compileWith (fun t _ => h t) cache hsound

/-- A name is compiled to its module. -/
theorem produces_compileAt (hsound : cache.Sound r) :
    r.Produces (r.result id) (r.compileAt depth id cache) := by
  -- Only soundness is carried along: failures say nothing here, and so no path of names is needed.
  induction depth using Nat.strongRecOn generalizing id cache with
  | ind depth ih =>
    have hspec (s : ModuleSpec) {below : Nat} (hlt : below < depth) :
        r.Produces (s.compileWith r.result) (s.compileWith (r.compileAt below) (cache.push s.id)) :=
      produces_compileWith (fun _ _ hsound' => ih below hlt hsound') hsound
    have hattempt := r.attempt_compileAt depth id cache
    generalize r.compileAt depth id cache = run at hattempt ⊢
    cases hattempt with
    | kept hkept =>
      refine ⟨hsound, fun a h => ?_⟩
      cases h
      exact result_eq_ok_iff.2 (hsound id _ hkept)
    | cyclic | unresolved | endless => exact ⟨hsound, fun _ h => nomatch h⟩
    | @failed below s e middle _ _ _ hrun =>
      have hbelow := hspec s (Nat.lt_succ_self below)
      rw [hrun] at hbelow
      exact ⟨hbelow.sound, fun _ h => nomatch h⟩
    | @compiled below s m middle _ _ hs hrun =>
      have hbelow := hspec s (Nat.lt_succ_self below)
      rw [hrun] at hbelow
      have hm : r.Yields id m := yields_iff.2 ⟨s, hs, hbelow.result m rfl⟩
      refine ⟨CompileCache.Sound.keep hbelow.sound hm, fun a h => ?_⟩
      cases h
      exact result_eq_ok_iff.2 hm

/-- Whenever a specification is compiled with a sound cache, it is compiled to its module. -/
theorem yields_of_compileWith_eq_ok {s : ModuleSpec} (hsound : cache.Sound r)
    (h : (s.compileWith (r.compileAt depth) cache).1 = .ok m) : s.Yields r m :=
  (produces_compileWith (fun _ _ => produces_compileAt) hsound).result m h

/-- What a name compiles to is its module. -/
theorem CompilesTo.yields (h : r.CompilesTo id m) : r.Yields id m := by
  obtain ⟨depth, pending, h⟩ := h
  induction depth generalizing pending id m with
  | zero =>
    obtain ⟨_, _, _, _, hdepth, _⟩ := exists_of_uncachedAt_eq_ok h
    cases hdepth
  | succ depth ih =>
    obtain ⟨_, s, below, hs, hdepth, hcompile⟩ := exists_of_uncachedAt_eq_ok h
    cases hdepth
    exact .intro hs (fun t n hn => ih _ hn) hcompile

end Resolver

end WorkflowEngine
