import WorkflowEngine.Engine
import WorkflowEngine.Proofs.Compilation.Endless

/-!
# Tables of specifications bound to other names

References, the cache and the resolver go by the name to which a specification is bound, while the
table files each module under its own name. Whatever the names are, a compilation that succeeds has
kept the module of every name that is reached and of no other. What is lost on the way to the table
is lost because two modules share a name; and a name finds the module of its specification only if
that has this name.
-/

namespace WorkflowEngine

namespace CompileCache

/-- What a kept name refers to is kept. -/
def Closed (r : Resolver) (cache : CompileCache) : Prop :=
  ∀ id t, cache.Holds id → r.Refers id t → cache.Holds t

/-- A cache stays closed when a name is kept whose references are kept. -/
theorem Closed.keep {r : Resolver} {cache : CompileCache} (h : cache.Closed r) {id : ModuleId}
    (m : Module) (ht : ∀ t, r.Refers id t → cache.Holds t) : (cache.keep id m).Closed r := by
  exact fun x t => holds_keep_of_refers h ht

end CompileCache

namespace Resolver

variable {r : Resolver} {id main : ModuleId} {depth : Nat} {cache : CompileCache}

/-! ## What a compilation keeps -/

/-- What a step that asks for certain references keeps: what was kept before, the references
themselves if it succeeds, and nothing that they do not reach. -/
structure Collects {α : Type} (r : Resolver) (asked : List ModuleId) (before : CompileCache)
    (run : Except CompileFailure α × CompileCache) : Prop where
  /-- What was kept is still kept. -/
  grows : ∀ x, before.Holds x → run.2.Holds x
  /-- What kept names refer to is kept, if it was before. -/
  closed : before.Closed r → run.2.Closed r
  /-- After a success, the references asked for are kept. -/
  kept : Succeeds run.1 → ∀ t ∈ asked, run.2.Holds t
  /-- What is kept was kept before or is reached from the references asked for. -/
  origin : ∀ x, run.2.Holds x → before.Holds x ∨ ∃ t ∈ asked, r.Reaches t x

namespace Collects

variable {α : Type} {asked : List ModuleId} {run : Except CompileFailure α × CompileCache}

/-- A step that changes nothing. -/
theorem refl {outcome : Except CompileFailure α}
    (hkept : Succeeds outcome → ∀ t ∈ asked, cache.Holds t) :
    r.Collects asked cache (outcome, cache) :=
  ⟨fun _ h => h, fun h => h, hkept, fun _ h => .inl h⟩

/-- What is kept has its origin in more references, too. -/
theorem origin_mono (h : r.Collects asked cache run) {more : List ModuleId} (hmore : asked ⊆ more)
    {x : ModuleId} (hx : run.2.Holds x) : cache.Holds x ∨ ∃ t ∈ more, r.Reaches t x := by
  refine (h.origin x hx).imp_right ?_
  rintro ⟨t, ht, hreach⟩
  exact ⟨t, hmore ht, hreach⟩

/-- What is kept for the targets of a specification has its origin in its name. -/
theorem origin_target {s : ModuleSpec} (h : r.Collects s.targets cache run)
    (hs : r.get? id = some s) {x : ModuleId} (hx : run.2.Holds x) :
    cache.Holds x ∨ ∃ t ∈ [id], r.Reaches t x := by
  refine (h.origin x hx).imp_right ?_
  rintro ⟨t, ht, hreach⟩
  exact ⟨id, List.mem_singleton_self id, hreach.head (refers_of_mem_targets hs ht)⟩

end Collects

/-- Steps that collect what they ask for are respected by compilation. -/
theorem respected_collects (r : Resolver) :
    ModuleSpec.Respected fun α asked (x _ : Compiling α) =>
      ∀ cache : CompileCache, r.Collects asked cache (x cache) where
  pure := fun _ cache => .refl fun _ _ ht => absurd ht List.not_mem_nil
  fail := fun _ cache => .refl fun hs => absurd hs (Succeeds.error _)
  bind := fun {α β asked later x _ f _} hx hf cache => by
    have h := hx cache
    cases hrun : x cache with
    | mk outcome middle =>
      rw [hrun] at h
      cases outcome with
      | error e =>
        rw [Compiling.bind_of_error hrun]
        refine ⟨h.grows, h.closed, fun hs => absurd hs (Succeeds.error e), fun y hy => ?_⟩
        exact h.origin_mono (List.subset_append_left asked later) hy
      | ok a =>
        rw [Compiling.bind_of_ok hrun]
        have h' := hf a middle
        refine ⟨fun y hy => h'.grows y (h.grows y hy), fun hclosed => h'.closed (h.closed hclosed),
          fun hs t ht => ?_, fun y hy => ?_⟩
        · rcases List.mem_append.1 ht with ht | ht
          · exact h'.grows t (h.kept ⟨a, rfl⟩ t ht)
          · exact h'.kept hs t ht
        · rcases h'.origin_mono (List.subset_append_right asked later) hy with hy | hreached
          · exact h.origin_mono (List.subset_append_left asked later) hy
          · exact .inr hreached

/-- Compiling a name collects the name and what it reaches. -/
theorem collects_compileAt (r : Resolver) (depth : Nat) (id : ModuleId) (cache : CompileCache) :
    r.Collects [id] cache (r.compileAt depth id cache) := by
  have hself := List.mem_singleton_self id
  induction depth using Nat.strongRecOn generalizing id cache with
  | ind depth ih =>
    have hspec (s : ModuleSpec) {below : Nat} (hlt : below < depth) :
        r.Collects s.targets (cache.push s.id)
          (s.compileWith (r.compileAt below) (cache.push s.id)) :=
      (respected_collects r).compileWith_self
        (fun t _ cache' => ih below hlt t cache' (List.mem_singleton_self t)) (cache.push s.id)
    have hattempt := r.attempt_compileAt depth id cache
    generalize r.compileAt depth id cache = run at hattempt ⊢
    cases hattempt with
    | @kept _ m hkept =>
      refine .refl fun _ t ht => ?_
      rw [List.mem_singleton.1 ht]
      exact ⟨m, hkept⟩
    | cyclic | unresolved | endless => exact .refl fun hs => absurd hs (Succeeds.error _)
    | @failed below s e middle _ _ hs hrun =>
      have hbelow := hspec s (Nat.lt_succ_self below)
      rw [hrun] at hbelow
      refine ⟨hbelow.grows, hbelow.closed, fun hs => absurd hs (Succeeds.error e), fun y hy => ?_⟩
      exact hbelow.origin_target hs hy
    | @compiled below s m middle _ _ hs hrun =>
      have hbelow := hspec s (Nat.lt_succ_self below)
      rw [hrun] at hbelow
      refine ⟨fun y hy => ?_, fun hclosed => ?_, fun _ t ht => ?_, fun y hy => ?_⟩
      · exact CompileCache.holds_keep_iff.2 (.inr (hbelow.grows y hy))
      · exact CompileCache.Closed.keep (hbelow.closed hclosed) m fun t ht =>
          hbelow.kept ⟨m, rfl⟩ t (mem_targets_of_refers hs ht)
      · exact CompileCache.holds_keep_iff.2 (.inl (List.mem_singleton.1 ht))
      · rcases CompileCache.holds_keep_iff.1 hy with rfl | hy
        · exact .inr ⟨y, hself, .refl⟩
        · exact hbelow.origin_target hs hy

/-- A table comes from a sound cache that has kept what is reached and nothing else. -/
theorem exists_cache_of_compileMain_eq_ok {table : ModuleTable}
    (h : r.compileMain main = .ok table) :
    ∃ cache : CompileCache, table = cache.table ∧ cache.Sound r ∧
      ∀ k, cache.Holds k ↔ r.Reaches main k := by
  have hgrows := r.grows_compileAt r.depth main .empty
  have hcollects := r.collects_compileAt r.depth main .empty
  unfold compileMain compileReference at h
  cases hrun : r.compileAt r.depth main .empty with
  | mk outcome cache =>
    rw [hrun] at h hgrows hcollects
    cases outcome with
    | error e => cases h
    | ok m =>
      cases h
      have hclosed : cache.Closed r := hcollects.closed fun _ _ ⟨_, hx⟩ => nomatch hx
      have hmain : cache.Holds main := hcollects.kept ⟨m, rfl⟩ main (List.mem_singleton_self main)
      refine ⟨cache, rfl, hgrows.sound (CompileCache.sound_empty r), fun k => ⟨fun hk => ?_, ?_⟩⟩
      · rcases hcollects.origin k hk with ⟨_, hx⟩ | ⟨t, ht, hreach⟩
        · cases hx
        · rwa [List.mem_singleton.1 ht] at hreach
      · exact mem_of_reaches hclosed hmain

/-! ## What becomes of it in a table -/

/-- The module of a name has the name of its specification. -/
theorem Yields.id_eq {k : ModuleId} {m : Module} (h : r.Yields k m) {s : ModuleSpec}
    (hs : r.get? k = some s) : m.id = s.id := by
  obtain ⟨s', hs', hyields⟩ := yields_iff.1 h
  cases hs.symm.trans hs'
  exact ModuleSpec.id_of_compileWith_eq_ok hyields

/-- What a table has is the module of a name that is reached, under its own name. -/
theorem exists_of_find?_eq_some {table : ModuleTable} (h : r.compileMain main = .ok table)
    {x : ModuleId} {m : Module} (hx : table.find? x = some m) :
    ∃ k, r.Reaches main k ∧ r.Yields k m ∧ m.id = x := by
  obtain ⟨cache, rfl, hsound, hholds⟩ := exists_cache_of_compileMain_eq_ok h
  obtain ⟨hmem, hid⟩ := Ascending.find?_eq_some_iff.1 hx
  obtain ⟨⟨k, n⟩, hk, rfl⟩ := List.mem_map.1 (Ascending.mem_of_mem_ofList hmem)
  have hfind : cache.done.find? k = some (k, n) := Ascending.find?_eq_some_iff.2 ⟨hk, rfl⟩
  have hget : cache.done.get? k = some n := by rw [Dictionary.get?, hfind, Option.map_some]
  exact ⟨k, (hholds k).1 ⟨n, hget⟩, hsound k n hget, hid⟩

/-- Every name that is reached has a module, and a table has a module of that module's name. -/
theorem exists_yields_of_reaches {table : ModuleTable} (h : r.compileMain main = .ok table)
    {k : ModuleId} (hk : r.Reaches main k) :
    ∃ m, r.Yields k m ∧ ∃ m', table.find? m.id = some m' := by
  obtain ⟨cache, rfl, hsound, hholds⟩ := exists_cache_of_compileMain_eq_ok h
  obtain ⟨m, hm⟩ := (hholds k).2 hk
  obtain ⟨p, hp, rfl⟩ := Option.map_eq_some_iff.1 hm
  refine ⟨p.2, hsound k p.2 hm, Ascending.mem_keys_iff.1 (Ascending.mem_keys_ofList.2 ?_)⟩
  exact List.mem_map_of_mem (List.mem_map_of_mem (Ascending.find?_eq_some_iff.1 hp).1)

/-- A table has the module of a name that is reached if no other name that is reached is bound to a
specification of the same name. -/
theorem find?_of_only {table : ModuleTable} (h : r.compileMain main = .ok table) {k : ModuleId}
    (hk : r.Reaches main k) {s : ModuleSpec} (hs : r.get? k = some s)
    (honly : ∀ k' s', r.Reaches main k' → r.get? k' = some s' → s'.id = s.id → k' = k) :
    ∃ m, r.Yields k m ∧ table.find? s.id = some m := by
  obtain ⟨m, hm, m', hfind⟩ := exists_yields_of_reaches h hk
  rw [hm.id_eq hs] at hfind
  obtain ⟨k', hk', hm', hid⟩ := exists_of_find?_eq_some h hfind
  obtain ⟨s', hs', -⟩ := yields_iff.1 hm'
  have hsame : k' = k := honly k' s' hk' hs' ((hm'.id_eq hs').symm.trans hid)
  rw [hsame] at hm'
  exact ⟨m', hm', hfind⟩

/-- What the table of a name has, whatever the names are to which specifications are bound:

1. for each name that is reached, a module under the name of its specification;
2. nothing but modules of names that are reached, each under its own name;
3. the module of a name, under the name of its specification, if no other name that is reached is
   bound to a specification of that name;
4. the modules of all names that are reached, each under the name that is reached, exactly if all
   these are bound to specifications of their own names;
5. so an engine runs the module of the name if the specification bound to it, and no other that is
   reached, has that name, and nothing at all if none has it. -/
theorem table_of_compileMain_eq_ok {table : ModuleTable} (h : r.compileMain main = .ok table) :
    (∀ k, r.Reaches main k → ∃ s m, r.get? k = some s ∧ s.Yields r m ∧
      ∃ m', table.find? s.id = some m') ∧
    (∀ x m, table.find? x = some m →
      ∃ k s, r.Reaches main k ∧ r.get? k = some s ∧ s.Yields r m ∧ s.id = x) ∧
    (∀ k s, r.Reaches main k → r.get? k = some s →
      (∀ k' s', r.Reaches main k' → r.get? k' = some s' → s'.id = s.id → k' = k) →
      ∃ m, s.Yields r m ∧ table.find? s.id = some m) ∧
    ((∀ k, r.Reaches main k → ∃ m, r.Yields k m ∧ table.find? k = some m) ↔
      ∀ k s, r.Reaches main k → r.get? k = some s → s.id = k) ∧
    ∀ e : Engine, e.modules = table → ∀ executionId input,
      ((∀ k s, r.Reaches main k → r.get? k = some s → (s.id = main ↔ k = main)) →
        ∃ m, r.Yields main m ∧ e.executeById executionId main input =
          (e.execute executionId m input, Measurement.ofRun (e.execute executionId m input))) ∧
      ((∀ k s, r.Reaches main k → r.get? k = some s → s.id ≠ main) →
        e.executeById executionId main input = (.fail (.unresolvedReference main), [])) := by
  have hbound {k : ModuleId} (hk : r.Reaches main k) : ∃ s m, r.get? k = some s ∧ s.Yields r m ∧
      r.Yields k m ∧ ∃ m', table.find? s.id = some m' := by
    obtain ⟨m, hm, hfind⟩ := exists_yields_of_reaches h hk
    obtain ⟨s, hs, hyields⟩ := yields_iff.1 hm
    exact ⟨s, m, hs, hyields, hm, hm.id_eq hs ▸ hfind⟩
  have hlisted {x : ModuleId} {m : Module} (hx : table.find? x = some m) :
      ∃ k s, r.Reaches main k ∧ r.get? k = some s ∧ s.Yields r m ∧ s.id = x := by
    obtain ⟨k, hk, hm, hid⟩ := exists_of_find?_eq_some h hx
    obtain ⟨s, hs, hyields⟩ := yields_iff.1 hm
    exact ⟨k, s, hk, hs, hyields, (hm.id_eq hs).symm.trans hid⟩
  refine ⟨fun k hk => ?_, fun x m => hlisted, fun k s hk hs honly => ?_, ⟨?_, ?_⟩, ?_⟩
  · obtain ⟨s, m, hs, hyields, -, hfind⟩ := hbound hk
    exact ⟨s, m, hs, hyields, hfind⟩
  · obtain ⟨m, hm, hfind⟩ := find?_of_only h hk hs honly
    obtain ⟨s', hs', hyields⟩ := yields_iff.1 hm
    cases hs.symm.trans hs'
    exact ⟨m, hyields, hfind⟩
  · intro hall k s hk hs
    obtain ⟨m, hm, hfind⟩ := hall k hk
    exact (hm.id_eq hs).symm.trans (Ascending.find?_eq_some_iff.1 hfind).2
  -- Where all names are those of specifications, no other name is filed in the place of one.
  · intro hown k hk
    obtain ⟨s, m, hs, -, -, -⟩ := hbound hk
    have hsame : s.id = k := hown k s hk hs
    obtain ⟨m, hm, hfind⟩ := find?_of_only h hk hs fun k' s' hk' hs' hid =>
      (hown k' s' hk' hs').symm.trans (hid.trans hsame)
    exact ⟨m, hm, hsame ▸ hfind⟩
  · rintro e rfl executionId input
    constructor
    · intro hmain
      obtain ⟨s, _, hs, -, -, -⟩ := hbound .refl
      have hid : s.id = main := (hmain main s .refl hs).2 rfl
      obtain ⟨m, hm, hfind⟩ := find?_of_only h .refl hs fun k' s' hk' hs' hid' =>
        (hmain k' s' hk' hs').1 (hid'.trans hid)
      rw [hid] at hfind
      refine ⟨m, hm, ?_⟩
      rw [Engine.executeById, hfind]
    · intro hnone
      have hfind : e.modules.find? main = none := by
        rw [Option.eq_none_iff_forall_ne_some]
        intro m hm
        obtain ⟨k, s, hk, hs, -, hid⟩ := hlisted hm
        exact hnone k s hk hs hid
      rw [Engine.executeById, hfind]

/-- A call of a fetch that is bound to another name than its own. -/
def nicknamed : Resolver :=
  ⟨[("entry", .mk "main" .empty (.subWorkflow "page")), ("page", .http "page")], by decide⟩

/-- The table has the fetch, but not the name of the call, and an engine runs nothing for it. -/
theorem table_of_compileMain_nicknamed :
    ∃ table, nicknamed.compileMain "entry" = .ok table ∧ table.keys = ["main", "page"] ∧
      (∃ m, (ModuleSpec.http "page").Yields nicknamed m ∧ table.find? "page" = some m) ∧
      ∀ e : Engine, e.modules = table → ∀ executionId input,
        e.executeById executionId "entry" input = (.fail (.unresolvedReference "entry"), []) := by
  have hkeys : (nicknamed.compileMain "entry").map Ascending.keys = .ok ["main", "page"] := by
    decide +kernel
  obtain ⟨table, h, hkeys⟩ := map_eq_ok_iff.1 hkeys
  have hbound : ∀ k s, nicknamed.get? k = some s → (k, s.id) = ("entry", "main") ∨
      (k, s.id) = ("page", "page") := by
    intro k s hs
    obtain ⟨⟨k', s'⟩, hfind, rfl⟩ := Option.map_eq_some_iff.1 hs
    obtain ⟨hmem, rfl⟩ := Ascending.find?_eq_some_iff.1 hfind
    rcases List.mem_cons.1 hmem with heq | hmem
    · cases heq
      exact .inl rfl
    · cases List.mem_singleton.1 hmem
      exact .inr rfl
  obtain ⟨-, -, honly, -, hengine⟩ := table_of_compileMain_eq_ok h
  refine ⟨table, h, hkeys, honly "page" _ (.single ⟨_, rfl, by decide⟩) rfl ?_, ?_⟩
  · intro k s _ hs hid
    rcases hbound k s hs with heq | heq
    · exact absurd (hid.symm.trans (congrArg Prod.snd heq)) (by decide)
    · exact congrArg Prod.fst heq
  · intro e he executionId input
    refine (hengine e he executionId input).2 fun k s _ hs hid => ?_
    rcases hbound k s hs with heq | heq
    · exact absurd (hid.symm.trans (congrArg Prod.snd heq)) (by decide)
    · exact absurd (hid.symm.trans (congrArg Prod.snd heq)) (by decide)

/-- Two names bound to specifications of one name, of which one calls the other. -/
def namesakes : Resolver :=
  ⟨[("a", .mk "x" .empty (.sequential [⟨.mk "call" .empty (.subWorkflow "b"), .empty⟩])),
    ("b", .mk "x" .empty (.sequential []))], by decide⟩

/-- Both modules are compiled, but the table has one of them only, and neither of the names. -/
theorem compileMain_namesakes :
    ∃ table, namesakes.compileMain "a" = .ok table ∧ namesakes.Refers "a" "b" ∧
      table.keys = ["x"] ∧ table.find? "a" = none ∧ table.find? "b" = none := by
  have hkeys : (namesakes.compileMain "a").map Ascending.keys = .ok ["x"] := by decide +kernel
  obtain ⟨table, h, hkeys⟩ := map_eq_ok_iff.1 hkeys
  have hnone : ∀ k, k ≠ "x" → table.find? k = none := by
    intro k hk
    rw [Option.eq_none_iff_forall_ne_some]
    intro m hm
    have hmem : k ∈ table.keys := Ascending.mem_keys_iff.2 ⟨m, hm⟩
    rw [hkeys] at hmem
    exact hk (List.mem_singleton.1 hmem)
  exact ⟨table, h, ⟨_, rfl, by decide⟩, hkeys, hnone "a" (by decide), hnone "b" (by decide)⟩

end Resolver

end WorkflowEngine
