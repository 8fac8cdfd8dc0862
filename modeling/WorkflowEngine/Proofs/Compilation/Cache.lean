import WorkflowEngine.Proofs.Compilation.Uncached

/-!
# Compilation with a cache

A cache is valid when everything it holds is what its name compiles to and comes with all that it
refers to. Every step of compilation keeps a valid cache valid and ends as it would without a cache.
A step that fails halfway keeps what has been compiled by then, and leaves the names that are being
compiled as it found them.
-/

namespace WorkflowEngine

namespace CompileCache

/-- A module is kept for a name. -/
def Holds (cache : CompileCache) (id : ModuleId) : Prop := ∃ m, cache.done.get? id = some m

/-- Every module kept is what its name compiles to, and whatever it refers to is kept, too. -/
structure Valid (r : Resolver) (cache : CompileCache) : Prop where
  /-- Every module kept is the one its name compiles to. -/
  sound : ∀ id m, cache.done.get? id = some m → r.CompilesTo id m
  /-- What a kept name refers to is kept. -/
  closed : ∀ id t, cache.Holds id → r.Refers id t → cache.Holds t

/-- With nothing kept there is nothing to be wrong. -/
theorem valid_empty (r : Resolver) : empty.Valid r where
  sound := fun _ _ h => nomatch h
  closed := fun _ _ ⟨_, h⟩ => nomatch h

/-- The names being compiled do not matter to validity. -/
theorem Valid.of_done_eq {r : Resolver} {cache cache' : CompileCache} (h : cache.Valid r)
    (hdone : cache'.done = cache.done) : cache'.Valid r := by
  obtain ⟨pending, done⟩ := cache
  obtain ⟨pending', done'⟩ := cache'
  cases hdone
  exact ⟨h.sound, h.closed⟩

/-- A kept name has everything kept that it reaches. -/
theorem Valid.holds_of_reaches {r : Resolver} {cache : CompileCache} (h : cache.Valid r)
    {id x : ModuleId} (hid : cache.Holds id) (hx : r.Reaches id x) : cache.Holds x :=
  Resolver.mem_of_reaches h.closed hid hx

/-- Keeping a name changes what is kept for that name only. -/
theorem get?_keep {cache : CompileCache} {id x : ModuleId} {m : Module} :
    (cache.keep id m).done.get? x = if x = id then some m else cache.done.get? x := by
  by_cases h : x = id
  · subst h
    rw [if_pos rfl]
    exact Dictionary.get?_set_self cache.done x m
  · rw [if_neg h]
    exact Dictionary.get?_set_of_ne cache.done m (Ne.symm h)

/-- Once a name is kept, it and the names kept before are. -/
theorem holds_keep_iff {cache : CompileCache} {id x : ModuleId} {m : Module} :
    (cache.keep id m).Holds x ↔ x = id ∨ cache.Holds x := by
  unfold Holds
  rw [get?_keep]
  by_cases h : x = id
  · rw [if_pos h]
    exact iff_of_true ⟨m, rfl⟩ (.inl h)
  · rw [if_neg h]
    exact (or_iff_right h).symm

/-- If what kept names refer to is kept, it stays so when a name is kept once what that refers to
is. -/
theorem holds_keep_of_refers {r : Resolver} {cache : CompileCache} {id x t : ModuleId} {m : Module}
    (h : ∀ x t, cache.Holds x → r.Refers x t → cache.Holds t)
    (ht : ∀ t, r.Refers id t → cache.Holds t) (hx : (cache.keep id m).Holds x)
    (hrefers : r.Refers x t) : (cache.keep id m).Holds t := by
  refine holds_keep_iff.2 (.inr ?_)
  rcases holds_keep_iff.1 hx with rfl | hx
  · exact ht t hrefers
  · exact h x t hx hrefers

/-- A name's module can be kept once everything it refers to is. -/
theorem Valid.keep {r : Resolver} {cache : CompileCache} (h : cache.Valid r) {id : ModuleId}
    {m : Module} (hm : r.CompilesTo id m) (ht : ∀ t, r.Refers id t → cache.Holds t) :
    (cache.keep id m).Valid r := by
  constructor
  · intro x m' hx
    rw [get?_keep] at hx
    by_cases he : x = id
    · rw [if_pos he] at hx
      cases hx
      exact he ▸ hm
    · rw [if_neg he] at hx
      exact h.sound x m' hx
  · exact fun x t => holds_keep_of_refers h.closed ht

end CompileCache

/-! ## Single steps -/

namespace Compiling

variable {α β : Type}

theorem get_bind {f : CompileCache → Compiling β} {cache : CompileCache} :
    (get >>= f) cache = f cache cache := rfl

/-- A step that goes on after a failure does not go on. -/
theorem bind_of_error {x : Compiling α} {f : α → Compiling β} {cache cache' : CompileCache}
    {e : CompileFailure} (h : x cache = (.error e, cache')) :
    (x >>= f) cache = (.error e, cache') := by
  show ExceptT.bindCont f (x cache).1 (x cache).2 = _
  rw [h]
  rfl

/-- A step that goes on after a result goes on with that result and with what is kept by then. -/
theorem bind_of_ok {x : Compiling α} {f : α → Compiling β} {cache cache' : CompileCache} {a : α}
    (h : x cache = (.ok a, cache')) : (x >>= f) cache = f a cache' := by
  show ExceptT.bindCont f (x cache).1 (x cache).2 = _
  rw [h]
  rfl

end Compiling

namespace Resolver

variable {r : Resolver} {depth : Nat} {id : ModuleId} {cache : CompileCache}

/-- What is kept is used again, even while the name is being compiled. -/
theorem compileAt_of_kept {m : Module} (h : cache.done.get? id = some m) :
    r.compileAt depth id cache = (.ok m, cache) := by
  unfold compileAt
  rw [Compiling.get_bind, h]
  rfl

/-- A name that is being compiled and not kept is reported with the names compiled since. -/
theorem compileAt_of_mem (h : cache.done.get? id = none) (hid : id ∈ cache.pending) :
    r.compileAt depth id cache =
      (.error (.error (.cyclicWorkflow (cache.pending.dropWhile (· != id) ++ [id]))), cache) := by
  unfold compileAt
  rw [Compiling.get_bind, h]
  simp only [if_pos hid]
  rfl

theorem compileAt_of_none (h : cache.done.get? id = none) (hid : id ∉ cache.pending)
    (hs : r.get? id = none) :
    r.compileAt depth id cache = (.error (.error (.unresolvedReference id)), cache) := by
  unfold compileAt
  rw [Compiling.get_bind, h]
  simp only [if_neg hid, hs]
  rfl

theorem compileAt_zero (h : cache.done.get? id = none) (hid : id ∉ cache.pending)
    {s : ModuleSpec} (hs : r.get? id = some s) :
    r.compileAt 0 id cache = (.error (.endless id), cache) := by
  unfold compileAt
  rw [Compiling.get_bind, h]
  simp only [if_neg hid, hs]
  rfl

/-- A name that is neither kept nor being compiled has its specification compiled, with references
followed one less deep, and is kept if that succeeds. -/
theorem compileAt_succ (h : cache.done.get? id = none) (hid : id ∉ cache.pending)
    {s : ModuleSpec} (hs : r.get? id = some s) :
    r.compileAt (depth + 1) id cache =
      (match (s.compileWith (r.compileAt depth)).within s.id cache with
      | (.ok m, cache') => (.ok m, cache'.keep id m)
      | (.error e, cache') => (.error e, cache')) := by
  rw [compileAt, Compiling.get_bind, h]
  simp only [if_neg hid, hs]
  cases hrun : (s.compileWith (r.compileAt depth)).within s.id cache with
  | mk outcome cache' =>
    cases outcome with
    | ok m =>
      rw [Compiling.bind_of_ok hrun]
      rfl
    | error e => rw [Compiling.bind_of_error hrun]

/-- What becomes of an attempt to compile a name. -/
inductive Attempt (r : Resolver) (id : ModuleId) (cache : CompileCache) :
    Nat → Except CompileFailure Module × CompileCache → Prop where
  /-- The name is kept. -/
  | kept {depth : Nat} {m : Module} (hkept : cache.done.get? id = some m) :
    Attempt r id cache depth (.ok m, cache)
  /-- The name is being compiled. -/
  | cyclic {depth : Nat} (hkept : cache.done.get? id = none) (hid : id ∈ cache.pending) :
    Attempt r id cache depth
      (.error (.error (.cyclicWorkflow (cache.pending.dropWhile (· != id) ++ [id]))), cache)
  /-- The name has no specification. -/
  | unresolved {depth : Nat} (hkept : cache.done.get? id = none) (hid : id ∉ cache.pending)
    (hs : r.get? id = none) :
    Attempt r id cache depth (.error (.error (.unresolvedReference id)), cache)
  /-- References are followed no deeper. -/
  | endless {s : ModuleSpec} (hkept : cache.done.get? id = none) (hid : id ∉ cache.pending)
    (hs : r.get? id = some s) : Attempt r id cache 0 (.error (.endless id), cache)
  /-- The specification does not compile. -/
  | failed {depth : Nat} {s : ModuleSpec} {e : CompileFailure} {middle : CompileCache}
    (hkept : cache.done.get? id = none) (hid : id ∉ cache.pending) (hs : r.get? id = some s)
    (hrun : s.compileWith (r.compileAt depth) (cache.push s.id) = (.error e, middle)) :
    Attempt r id cache (depth + 1) (.error e, middle.pop)
  /-- The specification compiles, and its module is kept. -/
  | compiled {depth : Nat} {s : ModuleSpec} {m : Module} {middle : CompileCache}
    (hkept : cache.done.get? id = none) (hid : id ∉ cache.pending) (hs : r.get? id = some s)
    (hrun : s.compileWith (r.compileAt depth) (cache.push s.id) = (.ok m, middle)) :
    Attempt r id cache (depth + 1) (.ok m, middle.pop.keep id m)

/-- Every attempt to compile a name ends in one of these ways. -/
theorem attempt_compileAt (r : Resolver) (depth : Nat) (id : ModuleId) (cache : CompileCache) :
    r.Attempt id cache depth (r.compileAt depth id cache) := by
  cases hkept : cache.done.get? id with
  | some m =>
    rw [compileAt_of_kept hkept]
    exact .kept hkept
  | none =>
    by_cases hid : id ∈ cache.pending
    · rw [compileAt_of_mem hkept hid]
      exact .cyclic hkept hid
    · cases hs : r.get? id with
      | none =>
        rw [compileAt_of_none hkept hid hs]
        exact .unresolved hkept hid hs
      | some s =>
        cases depth with
        | zero =>
          rw [compileAt_zero hkept hid hs]
          exact .endless hkept hid hs
        | succ depth =>
          rw [compileAt_succ hkept hid hs, Compiling.within]
          cases hrun : s.compileWith (r.compileAt depth) (cache.push s.id) with
          | mk outcome middle =>
            cases outcome with
            | error e => exact .failed hkept hid hs hrun
            | ok m => exact .compiled hkept hid hs hrun

/-! ## Whole compilations -/

/-- How a step on a valid cache ends when it asks for certain references: as it would without a
cache, with the names being compiled as before and a valid cache that has grown by nothing that
those references do not reach. -/
structure Simulates {α : Type} (r : Resolver) (asked : List ModuleId) (before : CompileCache)
    (fresh : Except CompileFailure α) (run : Except CompileFailure α × CompileCache) : Prop where
  /-- The outcome is that without a cache. -/
  outcome : run.1 = fresh
  /-- Every specification that was begun has been left again. -/
  pending : run.2.pending = before.pending
  /-- The cache is valid. -/
  valid : run.2.Valid r
  /-- What was kept is still kept. -/
  grows : ∀ x m, before.done.get? x = some m → run.2.done.get? x = some m
  /-- After a success, the references asked for are kept. -/
  kept : Succeeds fresh → ∀ t ∈ asked, run.2.Holds t
  /-- What is kept was kept before or is reached from the references asked for. -/
  origin : ∀ x, run.2.Holds x → before.Holds x ∨ ∃ t ∈ asked, r.Reaches t x

namespace Simulates

variable {α β : Type} {asked later : List ModuleId}

/-- A step that changes nothing. -/
theorem refl (hvalid : cache.Valid r) {fresh : Except CompileFailure α}
    (hkept : Succeeds fresh → ∀ t ∈ asked, cache.Holds t) :
    r.Simulates asked cache fresh (fresh, cache) :=
  ⟨rfl, rfl, hvalid, fun _ _ h => h, hkept, fun _ h => .inl h⟩

/-- What was kept before a step is kept after it. -/
theorem holds {fresh : Except CompileFailure α} {run : Except CompileFailure α × CompileCache}
    (h : r.Simulates asked cache fresh run) {x : ModuleId} (hx : cache.Holds x) :
    run.2.Holds x := by
  obtain ⟨m, hm⟩ := hx
  exact ⟨m, h.grows x m hm⟩

/-- A failure stays what it is whatever else would have been asked for afterwards. -/
theorem of_error {e : CompileFailure} {middle : CompileCache} {asked' : List ModuleId}
    (h : r.Simulates asked cache (.error e : Except CompileFailure α) (.error e, middle))
    (hasked : ∀ t ∈ asked, ∃ t' ∈ asked', r.Reaches t' t) :
    r.Simulates asked' cache (.error e : Except CompileFailure β) (.error e, middle) := by
  refine ⟨rfl, h.pending, h.valid, h.grows, ?_, ?_⟩
  · intro hs
    exact absurd hs (Succeeds.error e)
  · intro x hx
    rcases h.origin x hx with hx | ⟨t, ht, hreach⟩
    · exact .inl hx
    · obtain ⟨t', ht', hreach'⟩ := hasked t ht
      exact .inr ⟨t', ht', hreach'.trans hreach⟩

/-- Steps taken one after the other. -/
theorem trans {a : α} {fresh : Except CompileFailure β} {middle : CompileCache}
    {run : Except CompileFailure β × CompileCache}
    (h : r.Simulates asked cache (.ok a : Except CompileFailure α) (.ok a, middle))
    (h' : r.Simulates later middle fresh run) :
    r.Simulates (asked ++ later) cache fresh run := by
  refine ⟨h'.outcome, h'.pending.trans h.pending, h'.valid, ?_, ?_, ?_⟩
  · intro x m hx
    exact h'.grows x m (h.grows x m hx)
  · intro hs t ht
    rcases List.mem_append.1 ht with ht | ht
    · exact h'.holds (h.kept ⟨a, rfl⟩ t ht)
    · exact h'.kept hs t ht
  · intro x hx
    rcases h'.origin x hx with hx | ⟨t, ht, hreach⟩
    · rcases h.origin x hx with hx | ⟨t, ht, hreach⟩
      · exact .inl hx
      · exact .inr ⟨t, List.mem_append_left _ ht, hreach⟩
    · exact .inr ⟨t, List.mem_append_right _ ht, hreach⟩

/-- A specification's compilation is begun and left again. -/
theorem within {x : Compiling α} {fresh : Except CompileFailure α}
    (h : r.Simulates asked (cache.push id) fresh (x (cache.push id))) :
    r.Simulates asked cache fresh (x.within id cache) := by
  have hpending : (x (cache.push id)).2.pending.dropLast = cache.pending := by
    rw [h.pending]
    exact List.dropLast_concat
  exact ⟨h.outcome, hpending, h.valid.of_done_eq rfl, h.grows, h.kept, h.origin⟩

/-- A name whose specification has been compiled is kept. -/
theorem keep {m : Module} {middle : CompileCache}
    (h : r.Simulates asked cache (.ok m : Except CompileFailure Module) (.ok m, middle))
    (hm : r.CompilesTo id m) (hnone : cache.done.get? id = none)
    (hasked : ∀ t, r.Refers id t ↔ t ∈ asked) :
    r.Simulates [id] cache (.ok m : Except CompileFailure Module) (.ok m, middle.keep id m) := by
  have hself := List.mem_singleton_self id
  have htargets : ∀ t, r.Refers id t → middle.Holds t := by
    intro t ht
    exact h.kept ⟨m, rfl⟩ t ((hasked t).1 ht)
  refine ⟨rfl, h.pending, h.valid.keep hm htargets, ?_, ?_, ?_⟩
  · intro x m' hx
    have hne : x ≠ id := by
      intro he
      rw [he, hnone] at hx
      cases hx
    rw [CompileCache.get?_keep, if_neg hne]
    exact h.grows x m' hx
  · intro _ t ht
    exact CompileCache.holds_keep_iff.2 (.inl (List.mem_singleton.1 ht))
  · intro x hx
    rcases CompileCache.holds_keep_iff.1 hx with rfl | hx
    · exact .inr ⟨x, hself, .refl⟩
    · rcases h.origin x hx with hx | ⟨t, ht, hreach⟩
      · exact .inl hx
      · exact .inr ⟨id, hself, hreach.head ((hasked t).2 ht)⟩

end Simulates

/-- Steps on valid caches, while given names are being compiled, that simulate outcomes without a
cache are respected by compilation. -/
theorem respected_simulates (r : Resolver) (pending : List ModuleId) :
    ModuleSpec.Respected fun α asked (x : Compiling α) (fresh : Except CompileFailure α) =>
      ∀ cache : CompileCache, cache.pending = pending → cache.Valid r →
        r.Simulates asked cache fresh (x cache) where
  pure := fun a cache _ hvalid => .refl hvalid fun _ t ht => absurd ht List.not_mem_nil
  fail := fun fault cache _ hvalid => .refl hvalid fun _ t ht => absurd ht List.not_mem_nil
  bind := fun {α β asked later x fresh f g} hx hf cache hpending hvalid => by
    have h := hx cache hpending hvalid
    cases hrun : x cache with
    | mk first middle =>
      rw [hrun] at h
      obtain rfl : first = fresh := h.outcome
      cases first with
      | error e =>
        rw [Compiling.bind_of_error hrun]
        exact h.of_error fun t ht => ⟨t, List.mem_append_left later ht, .refl⟩
      | ok a =>
        rw [Compiling.bind_of_ok hrun]
        have hpending' : middle.pending = pending := h.pending.trans hpending
        exact h.trans (hf a middle hpending' h.valid)

/-- A specification is compiled with a valid cache as it is without, provided that its targets
are. -/
theorem simulates_within {s : ModuleSpec} (hvalid : cache.Valid r)
    (ht : ∀ t ∈ s.targets, ∀ cache' : CompileCache, cache'.pending = cache.pending ++ [s.id] →
      cache'.Valid r →
      r.Simulates [t] cache' (r.uncachedAt depth cache'.pending t) (r.compileAt depth t cache')) :
    r.Simulates s.targets cache (s.compileWith (r.uncachedAt depth (cache.pending ++ [s.id])))
      ((s.compileWith (r.compileAt depth)).within s.id cache) := by
  have hrespected := respected_simulates r (cache.pending ++ [s.id])
  have hbegun : (cache.push s.id).Valid r := hvalid.of_done_eq rfl
  apply Simulates.within
  refine hrespected.compileWith ?_ (cache.push s.id) rfl hbegun
  intro t hmem cache' hpending hvalid'
  rw [← hpending]
  exact ht t hmem cache' hpending hvalid'

/-- A name is compiled with a valid cache as it is without, provided that its specification is. -/
theorem simulates_compileAt_succ {s : ModuleSpec} (hkept : cache.done.get? id = none)
    (hid : id ∉ cache.pending) (hs : r.get? id = some s)
    (hrun : r.Simulates s.targets cache
      (s.compileWith (r.uncachedAt depth (cache.pending ++ [s.id])))
      ((s.compileWith (r.compileAt depth)).within s.id cache)) :
    r.Simulates [id] cache (r.uncachedAt (depth + 1) cache.pending id)
      (r.compileAt (depth + 1) id cache) := by
  have hfresh := @uncachedAt_succ r depth cache.pending id hid s hs
  have hself := List.mem_singleton_self id
  rw [compileAt_succ hkept hid hs, hfresh]
  generalize s.compileWith (r.uncachedAt depth (cache.pending ++ [s.id])) = fresh at hrun hfresh ⊢
  cases hend : (s.compileWith (r.compileAt depth)).within s.id cache with
  | mk outcome middle =>
    rw [hend] at hrun
    obtain rfl : outcome = fresh := hrun.outcome
    cases outcome with
    | error e =>
      apply hrun.of_error
      intro t ht
      exact ⟨id, hself, .single (refers_of_mem_targets hs ht)⟩
    | ok m =>
      refine hrun.keep ⟨_, _, hfresh⟩ hkept ?_
      intro t
      exact ⟨mem_targets_of_refers hs, refers_of_mem_targets hs⟩

/-- Along a path, deep enough, compiling a name with a valid cache ends as it would without. -/
theorem simulates_compileAt (hown : r.OwnNames) {main : ModuleId} (hvalid : cache.Valid r)
    (hpath : r.IsPath main cache.pending id) (hdepth : r.size ≤ depth + cache.pending.length) :
    r.Simulates [id] cache (r.uncachedAt depth cache.pending id) (r.compileAt depth id cache) := by
  induction depth using Nat.strongRecOn generalizing id cache with
  | ind depth ih =>
    cases hkept : cache.done.get? id with
    | some m =>
      have hm := (uncachedAt_eq_ok_iff hown hpath hdepth).2 (hvalid.sound id m hkept)
      rw [compileAt_of_kept hkept, hm]
      refine .refl hvalid ?_
      intro _ t ht
      rw [List.mem_singleton.1 ht]
      exact ⟨m, hkept⟩
    | none =>
      by_cases hid : id ∈ cache.pending
      · rw [compileAt_of_mem hkept hid, uncachedAt_of_mem hid]
        exact .refl hvalid fun hs => absurd hs (Succeeds.error _)
      · cases hs : r.get? id with
        | none =>
          rw [compileAt_of_none hkept hid hs, uncachedAt_of_none hid hs]
          exact .refl hvalid fun hs => absurd hs (Succeeds.error _)
        | some s =>
          -- The path has fewer names than there are, so that there is still a level to go down.
          have hlength := hpath.length_lt hid hs
          obtain ⟨below, rfl⟩ : ∃ below, depth = below + 1 := ⟨depth - 1, by omega⟩
          apply simulates_compileAt_succ hkept hid hs
          apply simulates_within hvalid
          intro t ht cache' hpending hvalid'
          have hpath' := hpath.step hid (refers_of_mem_targets hs ht)
          rw [← hown id s hs, ← hpending] at hpath'
          have hdepth' : r.size ≤ below + cache'.pending.length := by
            rw [hpending, List.length_append, List.length_singleton]
            omega
          exact ih below (Nat.lt_succ_self below) hvalid' hpath' hdepth'

end Resolver

end WorkflowEngine
