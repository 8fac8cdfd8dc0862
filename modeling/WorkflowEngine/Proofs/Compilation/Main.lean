import WorkflowEngine.Proofs.Compilation.Depth

/-!
# Compiling one specification and what it needs

What compiling a name on its own promises: it comes to an end by itself, it succeeds exactly when
everything that is reached is registered, free of circles and well declared, and then the table
holds what is reached. A failure names a specification that is missing or a circle that is there.
-/

namespace WorkflowEngine

namespace Resolver

variable {r : Resolver} {id : ModuleId} {m : Module} {cache : CompileCache}

/-- What a name compiles to has that name. -/
theorem CompilesTo.id_eq (hown : r.OwnNames) (h : r.CompilesTo id m) : m.id = id := by
  obtain ⟨_, _, h⟩ := h
  obtain ⟨_, s, _, hs, _, hcompile⟩ := exists_of_uncachedAt_eq_ok h
  exact (ModuleSpec.id_of_compileWith_eq_ok hcompile).trans (hown id s hs)

/-- Where names are those of specifications, a module is kept under its own name. -/
theorem id_eq_of_mem_done (hown : r.OwnNames) (hvalid : cache.Valid r) {p : ModuleId × Module}
    (hp : p ∈ cache.done.toList) : p.2.id = p.1 := by
  have hfind : cache.done.find? p.1 = some p := Ascending.find?_eq_some_iff.2 ⟨hp, rfl⟩
  have hget : cache.done.get? p.1 = some p.2 := by
    rw [Dictionary.get?, hfind, Option.map_some]
  exact (hvalid.sound p.1 p.2 hget).id_eq hown

/-- The table lists the modules in the order in which they are kept. -/
theorem toList_table (hown : r.OwnNames) (hvalid : cache.Valid r) :
    cache.table.toList = cache.done.toList.map Prod.snd := by
  apply Ascending.toList_ofList
  rw [List.pairwise_map]
  apply cache.done.ascending.imp_of_mem
  intro p q hp hq hlt
  rwa [id_eq_of_mem_done hown hvalid hp, id_eq_of_mem_done hown hvalid hq]

/-- Filing modules under their own names changes nothing where these are the names kept. -/
theorem find?_table (hown : r.OwnNames) (hvalid : cache.Valid r) :
    cache.table.find? id = cache.done.get? id := by
  ext m
  simp only [Ascending.find?_eq_some_iff, toList_table hown hvalid, List.mem_map, Dictionary.get?,
    Option.map_eq_some_iff]
  constructor
  · rintro ⟨⟨p, hp, rfl⟩, hid⟩
    exact ⟨p, ⟨hp, (id_eq_of_mem_done hown hvalid hp).symm.trans hid⟩, rfl⟩
  · rintro ⟨p, ⟨hp, hid⟩, rfl⟩
    exact ⟨⟨p, hp, rfl⟩, (id_eq_of_mem_done hown hvalid hp).trans hid⟩

/-- The names of a table are the names kept. -/
theorem mem_keys_table_iff (hown : r.OwnNames) (hvalid : cache.Valid r) :
    id ∈ cache.table.keys ↔ cache.Holds id := by
  rw [Ascending.mem_keys_iff, find?_table hown hvalid]
  rfl

/-- References may be followed at least as deep as there are names. -/
theorem size_le_depth (r : Resolver) : r.size ≤ r.depth := by
  unfold depth
  omega

/-- A name is compiled with a valid cache, while nothing is being compiled, as it is without. -/
theorem simulates_compileReference (hown : r.OwnNames) (hvalid : cache.Valid r)
    (hpending : cache.pending = []) :
    r.Simulates [id] cache (r.uncachedAt r.depth [] id) (r.compileReference id cache) := by
  obtain ⟨pending, done⟩ := cache
  cases hpending
  exact simulates_compileAt hown hvalid (.nil r id) r.size_le_depth

/-- A name compiles on its own to what it compiles to at all. -/
theorem uncachedAt_depth_eq_ok_iff (hown : r.OwnNames) :
    r.uncachedAt r.depth [] id = .ok m ↔ r.CompilesTo id m :=
  uncachedAt_eq_ok_iff hown (.nil r id) r.size_le_depth

/-- The outcome of compiling a name and what it needs is the table of a valid cache that has just
what the name reaches, or the failure of the name. -/
theorem cases_compileMain (hown : r.OwnNames) (id : ModuleId) :
    (∃ m, ∃ cache : CompileCache, r.CompilesTo id m ∧ r.compileMain id = .ok cache.table ∧
      cache.Valid r ∧ ∀ x, cache.Holds x ↔ r.Reaches id x) ∨
    ∃ e, r.uncachedAt r.depth [] id = .error e ∧ r.compileMain id = .error e := by
  have h := @simulates_compileReference r id .empty hown (CompileCache.valid_empty r) rfl
  unfold compileMain
  cases hrun : r.compileReference id .empty with
  | mk outcome cache =>
    rw [hrun] at h
    cases outcome with
    | error e => exact .inr ⟨e, h.outcome.symm, rfl⟩
    | ok m =>
      have hm : r.CompilesTo id m := (uncachedAt_depth_eq_ok_iff hown).1 h.outcome.symm
      have hid : cache.Holds id := h.kept ⟨m, h.outcome.symm⟩ id (List.mem_singleton_self id)
      refine .inl ⟨m, cache, hm, rfl, h.valid, ?_⟩
      intro x
      constructor
      · intro hx
        rcases h.origin x hx with ⟨_, hx⟩ | ⟨t, ht, hreach⟩
        · cases hx
        · rwa [List.mem_singleton.1 ht] at hreach
      · intro hx
        exact h.valid.holds_of_reaches hid hx

/-- A name's own table has for the name what it compiles to. -/
theorem exists_of_compileMain_eq_ok (hown : r.OwnNames) {t : ModuleTable}
    (h : r.compileMain id = .ok t) : ∃ m, r.CompilesTo id m ∧ t.find? id = some m := by
  rcases cases_compileMain hown id with ⟨_, cache, _, ht, hvalid, hholds⟩ | ⟨e, _, he⟩
  · cases h.symm.trans ht
    obtain ⟨m, hm⟩ := (hholds id).2 .refl
    exact ⟨m, hvalid.sound id m hm, (find?_table hown hvalid).trans hm⟩
  · cases h.symm.trans he

/-- Compiling a name on its own succeeds exactly when the name is compilable. -/
theorem compileMain_succeeds_iff (hown : r.OwnNames) :
    (∃ t, r.compileMain id = .ok t) ↔ r.Compilable id := by
  constructor
  · rintro ⟨t, ht⟩
    obtain ⟨m, hm, _⟩ := exists_of_compileMain_eq_ok hown ht
    exact hm.compilable hown
  · intro h
    obtain ⟨m, hm⟩ := succeeds_uncachedAt hown (.nil r id) r.size_le_depth h
    rcases cases_compileMain hown id with ⟨_, cache, _, ht, _⟩ | ⟨e, he, _⟩
    · exact ⟨_, ht⟩
    · cases hm.symm.trans he

/-- Compiling a name on its own fails as it does without a cache. -/
theorem compileMain_eq_error_iff (hown : r.OwnNames) {e : CompileFailure} :
    r.compileMain id = .error e ↔ r.uncachedAt r.depth [] id = .error e := by
  rcases cases_compileMain hown id with ⟨m, cache, hm, ht, _⟩ | ⟨e', he, he'⟩
  · have hok := (uncachedAt_depth_eq_ok_iff hown).2 hm
    rw [ht, hok]
    exact iff_of_false (fun h => nomatch h) fun h => nomatch h
  · rw [he, he', Except.error.injEq, Except.error.injEq]

/-- A failure of compiling a name on its own has an explanation. -/
theorem explains_of_compileMain_eq_error (hown : r.OwnNames) {e : CompileFailure}
    (h : r.compileMain id = .error e) : r.Explains id e := by
  have hfresh := (compileMain_eq_error_iff hown).1 h
  exact explains_of_uncachedAt_eq_error hown (.nil r id) r.size_le_depth hfresh

/-- No registry makes compiling give up. -/
theorem compileMain_ne_endless (hown : r.OwnNames) (t : ModuleId) :
    r.compileMain id ≠ .error (.endless t) := by
  intro h
  cases explains_of_compileMain_eq_error hown h

/-- Compiling a name on its own ends by itself: no greater depth changes anything. -/
theorem compileAt_eq_compileReference (hown : r.OwnNames) {depth : Nat} (hdepth : r.size ≤ depth) :
    r.compileAt depth id .empty = r.compileReference id .empty := by
  have hsize {depth : Nat} (hdepth : r.size ≤ depth) :
      r.compileAt depth id .empty = r.compileAt r.size id .empty := by
    apply (compileAt_eq_of_le hdepth).resolve_left
    rintro ⟨t, ht⟩
    have hle := Nat.le_refl r.size
    have h := simulates_compileAt hown (CompileCache.valid_empty r) (.nil r id) hle
    cases explains_of_uncachedAt_eq_error hown (.nil r id) hle (h.outcome.symm.trans ht)
  rw [hsize hdepth, compileReference, hsize r.size_le_depth]

end Resolver

namespace Registry

/-- What compiling a name of a registry with all that it needs amounts to:

1. it ends by itself, however deep references are followed, and never by giving up;
2. it succeeds exactly when every name that is reached is registered, none of them is on a circle of
   references, and everything inside their specifications is declared as its kind demands;
3. the names of the table are then those that are reached;
4. a reference that is not resolved is the name itself or stands in a specification that is reached,
   and it is not registered;
5. a circle that is reported is one that is reached. -/
theorem compileMain_correct (r : Registry) (main : ModuleId) :
    (∀ depth, r.size ≤ depth →
      r.resolver.compileAt depth main .empty = r.resolver.compileReference main .empty) ∧
    (∀ id, r.resolver.compileMain main ≠ .error (.endless id)) ∧
    ((∃ t, r.resolver.compileMain main = .ok t) ↔ r.resolver.Compilable main) ∧
    (∀ t, r.resolver.compileMain main = .ok t →
      ∀ x, x ∈ t.keys ↔ r.resolver.Reaches main x) ∧
    (∀ x, r.resolver.compileMain main = .error (.error (.unresolvedReference x)) →
      (x = main ∨ ∃ y, r.resolver.Reaches main y ∧ r.resolver.Refers y x) ∧ r.find? x = none) ∧
    (∀ chain, r.resolver.compileMain main = .error (.error (.cyclicWorkflow chain)) →
      ∃ first rest, chain = first :: rest ++ [first] ∧ r.resolver.IsCircle main first rest) := by
  have hown := r.ownNames_resolver
  refine ⟨?_, Resolver.compileMain_ne_endless hown, Resolver.compileMain_succeeds_iff hown,
    ?_, ?_, ?_⟩
  · intro depth hdepth
    rw [← size_resolver] at hdepth
    exact Resolver.compileAt_eq_compileReference hown hdepth
  · intro t ht x
    rcases Resolver.cases_compileMain hown main with ⟨_, cache, _, ht', hvalid, hholds⟩ | ⟨_, _, he⟩
    · cases ht.symm.trans ht'
      rw [Resolver.mem_keys_table_iff hown hvalid, hholds]
    · cases ht.symm.trans he
  · intro x hx
    cases Resolver.explains_of_compileMain_eq_error hown hx with
    | unresolved hreach hs =>
      rw [get?_resolver] at hs
      refine ⟨?_, hs⟩
      rcases Relation.ReflTransGen.cases_tail hreach with h | ⟨y, hy, hrefers⟩
      · exact .inl h
      · exact .inr ⟨y, hy, hrefers⟩
  · intro chain hchain
    cases Resolver.explains_of_compileMain_eq_error hown hchain with
    | circle h => exact ⟨_, _, rfl, h⟩

end Registry

end WorkflowEngine
