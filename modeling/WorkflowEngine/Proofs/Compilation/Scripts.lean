import WorkflowEngine.Proofs.Compilation.Depth
import WorkflowEngine.Proofs.Compilation.Kept

/-!
# Compiling as a script of requests

A specification is compiled by asking for the modules of references one after the other; which one
is asked for next, if any, depends on the answers so far and on nothing else. This makes a script of
every specification. However references are followed, compiling is to play the script, and what is
kept answers a request without any further step. So a script comes to a stop at the first request
that nothing is kept for.
-/

namespace WorkflowEngine

/-- A computation that asks for the modules of references. -/
inductive Script (α : Type) where
  /-- Gives a result. -/
  | give (a : α)
  /-- Fails. -/
  | fault (e : CompileFailure)
  /-- Asks for the module of a reference and goes on with it. -/
  | ask (target : ModuleId) (next : Module → Script α)

namespace Script

variable {α β γ : Type}

/-- A script, and after it one that depends on its result. -/
def andThen : Script α → (α → Script β) → Script β
  | give a, f => f a
  | fault e, _ => fault e
  | ask target next, f => ask target fun m => (next m).andThen f

/-- Another script in place of a failure. -/
def orElse : Script α → (CompileFailure → Script α) → Script α
  | give a, _ => give a
  | fault e, handle => handle e
  | ask target next, handle => ask target fun m => (next m).orElse handle

instance : Monad Script where
  pure := give
  bind := andThen

instance : MonadExcept CompileFailure Script where
  throw := fault
  tryCatch := orElse

theorem andThen_give (p : Script α) : p.andThen give = p := by
  induction p with
  | give a => rfl
  | fault e => rfl
  | ask target next ih => exact congrArg (ask target) (funext ih)

theorem andThen_assoc (p : Script α) (f : α → Script β) (g : β → Script γ) :
    (p.andThen f).andThen g = p.andThen fun a => (f a).andThen g := by
  induction p with
  | give a => rfl
  | fault e => rfl
  | ask target next ih => exact congrArg (ask target) (funext ih)

instance : LawfulMonad Script :=
  LawfulMonad.mk' Script andThen_give (fun _ _ => rfl) andThen_assoc

section Run

variable {m : Type → Type} [Monad m] [MonadExcept CompileFailure m]

/-- Plays a script with a way of following references. -/
def run (reference : ModuleId → m Module) : Script α → m α
  | give a => pure a
  | fault e => throw e
  | ask target next => reference target >>= fun a => (next a).run reference

/-- Where nothing comes after a failure, to play a script and then what depends on its result is to
play both as one. -/
theorem run_andThen [LawfulMonad m]
    (hthrow : ∀ {α β : Type} (e : CompileFailure) (f : α → m β), throw e >>= f = throw e)
    {reference : ModuleId → m Module} (p : Script α) (f : α → Script β) :
    (p.andThen f).run reference = p.run reference >>= fun a => (f a).run reference := by
  induction p with
  | give a => rw [andThen, run, pure_bind]
  | fault e => exact (hthrow e _).symm
  | ask target next ih =>
    rw [andThen, run, run, bind_assoc]
    exact bind_congr ih

end Run

/-- All requests of a script are among given ones, and all its failures are faults of
specifications. -/
def Asks (asked : List ModuleId) : Script α → Prop
  | give _ => True
  | fault e => ∃ fault, e = .error (.validation fault)
  | ask target next => target ∈ asked ∧ ∀ m, (next m).Asks asked

/-- A script that asks for given references asks for any that include these. -/
theorem Asks.mono {asked asked' : List ModuleId} (hsub : asked ⊆ asked') {p : Script α}
    (h : p.Asks asked) : p.Asks asked' := by
  induction p with
  | give a => trivial
  | fault e => exact h
  | ask target next ih => exact ⟨hsub h.1, fun m => ih m (h.2 m)⟩

/-- Scripts that follow one another ask for what each of them asks for. -/
theorem Asks.andThen {asked : List ModuleId} {p : Script α} {f : α → Script β} (h : p.Asks asked)
    (hf : ∀ a, (f a).Asks asked) : (p.andThen f).Asks asked := by
  induction p with
  | give a => exact hf a
  | fault e => exact h
  | ask target next ih => exact ⟨h.1, fun m => ih m (h.2 m)⟩

/-- The first request that no module is kept for. -/
def stop? (done : Dictionary Module) : Script α → Option ModuleId
  | give _ => none
  | fault _ => none
  | ask target next =>
    match done.get? target with
    | some m => (next m).stop? done
    | none => some target

/-- A script stops at the same request when more is kept, as long as nothing is kept for that. -/
theorem stop?_mono {done done' : Dictionary Module}
    (hkept : ∀ x m, done.get? x = some m → done'.get? x = some m) {p : Script α} {t : ModuleId}
    (h : p.stop? done = some t) (ht : done'.get? t = none) : p.stop? done' = some t := by
  induction p with
  | give a => cases h
  | fault e => cases h
  | ask target next ih =>
    unfold stop? at h ⊢
    split at h
    · next m hm =>
      rw [hkept target m hm]
      exact ih m h
    · cases h
      rw [ht]

end Script

namespace ModuleSpec

/-- The script of a specification. -/
def script (s : ModuleSpec) : Script Module := s.compileWith fun t => .ask t .give

/-- To compile a specification is to play its script. -/
theorem compileWith_eq_run {m : Type → Type} [Monad m] [LawfulMonad m]
    [MonadExcept CompileFailure m]
    (hthrow : ∀ {α β : Type} (e : CompileFailure) (f : α → m β), throw e >>= f = throw e)
    (s : ModuleSpec) (reference : ModuleId → m Module) :
    s.compileWith reference = s.script.run reference := by
  have hplays : Respected fun α _ (x : m α) (p : Script α) => x = p.run reference := by
    refine ⟨fun a => rfl, fun fault => rfl, fun {α β asked later x p f g} hxp hfg => ?_⟩
    rw [show p >>= g = p.andThen g from rfl, Script.run_andThen hthrow, hxp]
    exact bind_congr hfg
  exact hplays.compileWith fun t _ => (bind_pure (reference t)).symm

/-- The script of a specification asks for targets of the specification only. -/
theorem asks_script (s : ModuleSpec) : s.script.Asks s.targets := by
  have hasks : Respected fun α asked (p _ : Script α) => p.Asks asked := by
    refine ⟨fun a => trivial, fun fault => ⟨fault, rfl⟩, fun {α β asked later p q f g} hp hf => ?_⟩
    have hfirst := hp.mono (List.subset_append_left asked later)
    exact hfirst.andThen fun a => (hf a).mono (List.subset_append_right asked later)
  have htarget (t : ModuleId) : (Script.ask t .give).Asks [t] :=
    ⟨List.mem_singleton_self t, fun m => trivial⟩
  exact hasks.compileWith_self fun t _ => htarget t

end ModuleSpec

/-- A cache that has grown from another while the same names are being compiled. -/
structure CompileCache.Grows (r : Resolver) (before after : CompileCache) : Prop where
  /-- The same names are being compiled. -/
  pending : after.pending = before.pending
  /-- What was kept is still kept. -/
  kept : ∀ x m, before.done.get? x = some m → after.done.get? x = some m
  /-- A sound cache has stayed sound. -/
  sound : before.Sound r → after.Sound r

namespace CompileCache.Grows

variable {r : Resolver} {a b c : CompileCache}

theorem refl (r : Resolver) (a : CompileCache) : a.Grows r a := ⟨rfl, fun _ _ h => h, fun h => h⟩

theorem trans (h : a.Grows r b) (h' : b.Grows r c) : a.Grows r c where
  pending := h'.pending.trans h.pending
  kept := fun x m hx => h'.kept x m (h.kept x m hx)
  sound := fun ha => h'.sound (h.sound ha)

/-- The specification begun last is left again. -/
theorem pop {id : ModuleId} (h : (a.push id).Grows r b) : a.Grows r b.pop where
  pending := by
    rw [CompileCache.pop, h.pending]
    exact List.dropLast_concat
  kept := h.kept
  sound := h.sound

/-- A name is kept that was not kept before. -/
theorem keep {id : ModuleId} {m : Module} (h : a.Grows r b) (hnone : a.done.get? id = none)
    (hm : a.Sound r → r.Yields id m) : a.Grows r (b.keep id m) where
  pending := h.pending
  kept := fun x m' hx => by
    have hne : x ≠ id := by
      rintro rfl
      cases hnone.symm.trans hx
    rw [get?_keep, if_neg hne]
    exact h.kept x m' hx
  sound := fun ha => (h.sound ha).keep (hm ha)

end CompileCache.Grows

namespace Script

variable {α : Type} {r : Resolver} {depth : Nat} {cache : CompileCache}

/-- Playing a script lets the cache grow if following references does. -/
theorem grows_run {reference : ModuleId → Compiling Module}
    (h : ∀ t cache, CompileCache.Grows r cache (reference t cache).2) (p : Script α)
    (cache : CompileCache) : cache.Grows r (p.run reference cache).2 := by
  induction p generalizing cache with
  | give a => exact .refl r cache
  | fault e => exact .refl r cache
  | ask target next ih =>
    have hgrows := h target cache
    rw [run]
    cases hrun : reference target cache with
    | mk outcome middle =>
      rw [hrun] at hgrows
      cases outcome with
      | error e =>
        rw [Compiling.bind_of_error hrun]
        exact hgrows
      | ok m =>
        rw [Compiling.bind_of_ok hrun]
        exact hgrows.trans (ih m middle)

end Script

namespace Resolver

variable {r : Resolver} {depth : Nat} {id : ModuleId} {cache : CompileCache}

/-- Compiling a name lets the cache grow, whether it succeeds or not. -/
theorem grows_compileAt (r : Resolver) (depth : Nat) (id : ModuleId) (cache : CompileCache) :
    cache.Grows r (r.compileAt depth id cache).2 := by
  induction depth using Nat.strongRecOn generalizing id cache with
  | ind depth ih =>
    have hspec (s : ModuleSpec) {below : Nat} (hlt : below < depth) :
        (cache.push s.id).Grows r (s.compileWith (r.compileAt below) (cache.push s.id)).2 := by
      rw [ModuleSpec.compileWith_eq_run fun _ _ => rfl]
      exact s.script.grows_run (ih below hlt) (cache.push s.id)
    have hattempt := r.attempt_compileAt depth id cache
    generalize r.compileAt depth id cache = run at hattempt ⊢
    cases hattempt with
    | kept | cyclic | unresolved | endless => exact .refl r cache
    | @failed below s e middle _ _ _ hrun =>
      have hbelow := hspec s (Nat.lt_succ_self below)
      rw [hrun] at hbelow
      exact hbelow.pop
    | @compiled below s m middle hkept _ hs hrun =>
      have hbelow := hspec s (Nat.lt_succ_self below)
      rw [hrun] at hbelow
      refine hbelow.pop.keep hkept fun hsound => ?_
      have hpushed : (cache.push s.id).Sound r := hsound
      have hm : s.Yields r m := yields_of_compileWith_eq_ok hpushed (congrArg Prod.fst hrun)
      exact yields_iff.2 ⟨s, hs, hm⟩

/-- What a name has been compiled to is kept for the name. -/
theorem get?_of_compileAt_eq_ok {m : Module} {cache' : CompileCache}
    (h : r.compileAt depth id cache = (.ok m, cache')) : cache'.done.get? id = some m := by
  have hattempt := r.attempt_compileAt depth id cache
  rw [h] at hattempt
  cases hattempt with
  | kept hkept => exact hkept
  | compiled => rw [CompileCache.get?_keep, if_pos rfl]

end Resolver

namespace Script

variable {α : Type} {r : Resolver} {depth : Nat} {cache : CompileCache} {p : Script α}
  {t : ModuleId}

/-- If the request at which a script stops fails, then so does the script. -/
theorem run_of_stop? (h : p.stop? cache.done = some t) {e : CompileFailure}
    (ht : (r.compileAt depth t cache).1 = .error e) :
    (p.run (r.compileAt depth) cache).1 = .error e := by
  induction p with
  | give a => cases h
  | fault e => cases h
  | ask target next ih =>
    unfold stop? at h
    rw [run]
    split at h
    · next m hm =>
      rw [Compiling.bind_of_ok (Resolver.compileAt_of_kept hm)]
      exact ih m h
    · cases h
      have hrun : r.compileAt depth t cache = (.error e, (r.compileAt depth t cache).2) :=
        Prod.ext ht rfl
      rw [Compiling.bind_of_error hrun]

/-- When playing a script gives up, it does so at a request at which the script stops by then.
Following references deeper comes to that request as well. -/
theorem exists_stop_of_run_eq_endless {asked : List ModuleId} (hasks : p.Asks asked) {id : ModuleId}
    (h : (p.run (r.compileAt depth) cache).1 = .error (.endless id)) :
    ∃ t ∈ asked, ∃ middle : CompileCache, cache.Grows r middle ∧ p.stop? middle.done = some t ∧
      (r.compileAt depth t middle).1 = .error (.endless id) ∧
      ∀ deeper e, depth ≤ deeper → (r.compileAt deeper t middle).1 = .error e →
        (p.run (r.compileAt deeper) cache).1 = .error e := by
  induction p generalizing cache with
  | give a => cases h
  | fault e =>
    obtain ⟨fault, rfl⟩ := hasks
    cases h
  | ask target next ih =>
    have hgrows := r.grows_compileAt depth target cache
    have hdeeper {deeper : Nat} (hle : depth ≤ deeper) :=
      @Resolver.compileAt_eq_of_le r depth deeper target cache hle
    rw [run] at h
    cases hrun : r.compileAt depth target cache with
    | mk outcome middle =>
      cases outcome with
      | error e =>
        rw [Compiling.bind_of_error hrun] at h
        cases h
        have hnone : cache.done.get? target = none := by
          cases hkept : cache.done.get? target with
          | none => rfl
          | some m => cases (Resolver.compileAt_of_kept hkept).symm.trans hrun
        refine ⟨target, hasks.1, cache, .refl r cache, ?_, by rw [hrun], ?_⟩
        · rw [stop?, hnone]
        · intro deeper e _ he
          exact run_of_stop? (p := ask target next) (by rw [stop?, hnone]) he
      | ok m =>
        rw [Compiling.bind_of_ok hrun] at h
        rw [hrun] at hgrows
        obtain ⟨t, ht, last, hlast, hstop, hends, hfollows⟩ := ih m (hasks.2 m) h
        refine ⟨t, ht, last, hgrows.trans hlast, ?_, hends, ?_⟩
        · rw [stop?, hlast.kept target m (Resolver.get?_of_compileAt_eq_ok hrun)]
          exact hstop
        · intro deeper e hle he
          -- The request before this one has succeeded already, and does so deeper.
          have hsame : r.compileAt deeper target cache = (.ok m, middle) := by
            rcases hdeeper hle with ⟨t', ht'⟩ | hsame
            · rw [hrun] at ht'
              cases ht'
            · exact hsame.trans hrun
          rw [run, Compiling.bind_of_ok hsame]
          exact hfollows deeper e hle he

/-- When playing a script fails with a sound cache, a request fails, or the script fails with any
answers to requests for which there are modules, as long as those are the answers. -/
theorem request_or_fault_of_run_eq_error {asked : List ModuleId} (hasks : p.Asks asked)
    {answer : ModuleId → Except CompileFailure Module}
    (hanswer : ∀ t m, r.Yields t m → answer t = .ok m) (hsound : cache.Sound r)
    {e : CompileFailure} (h : (p.run (r.compileAt depth) cache).1 = .error e) :
    (∃ t ∈ asked, ∃ middle : CompileCache, cache.Grows r middle ∧
      (r.compileAt depth t middle).1 = .error e) ∨ p.run answer = .error e := by
  induction p generalizing cache with
  | give a => cases h
  | fault e' =>
    cases h
    exact .inr rfl
  | ask target next ih =>
    have hgrows := r.grows_compileAt depth target cache
    rw [run] at h
    cases hrun : r.compileAt depth target cache with
    | mk outcome middle =>
      rw [hrun] at hgrows
      cases outcome with
      | error e' =>
        rw [Compiling.bind_of_error hrun] at h
        cases h
        exact .inl ⟨target, hasks.1, cache, .refl r cache, by rw [hrun]⟩
      | ok m =>
        rw [Compiling.bind_of_ok hrun] at h
        have hsound' := hgrows.sound hsound
        have hm : r.Yields target m := hsound' target m (Resolver.get?_of_compileAt_eq_ok hrun)
        rcases ih m (hasks.2 m) hsound' h with ⟨t, ht, last, hlast, hfails⟩ | hfails
        · exact .inl ⟨t, ht, last, hgrows.trans hlast, hfails⟩
        · rw [run, hanswer target m hm]
          exact .inr hfails

end Script

end WorkflowEngine
