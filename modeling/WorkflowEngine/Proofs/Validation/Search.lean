import WorkflowEngine.Validation
import WorkflowEngine.Proofs.Except
import WorkflowEngine.Proofs.Paths

/-!
# The search for a circle of references

The search leaves a name behind when everything that the name refers to has been left behind before.
It therefore can close no circle through the names left behind, and a search from every name that
comes to its end has shown that there is no circle at all. A circle that is reported is the part of
the path from the name on to which the search has come back.
-/

namespace WorkflowEngine

open Relation

namespace Registry

variable {r : Registry} {depth : Nat} {path visited visited' : List ModuleId} {id : ModuleId}

theorem mem_referencesOf_iff {t : ModuleId} : t ∈ r.referencesOf id ↔ r.resolver.Refers id t := by
  unfold referencesOf Resolver.Refers
  rw [get?_resolver]
  cases r.find? id with
  | none => simp
  | some s => simp

/-- What a search knows about the names that it has visited and that are not on its path: the names
that they refer to are such names again, and they are on no circle. -/
structure Explored (r : Registry) (path visited : List ModuleId) : Prop where
  /-- References do not leave the names left behind. -/
  closed : ∀ v ∈ visited, v ∉ path → ∀ t, r.resolver.Refers v t → t ∈ visited ∧ t ∉ path
  /-- No name left behind is on a circle. -/
  acyclic : ∀ v ∈ visited, v ∉ path → ¬ r.resolver.OnCircle v

/-- A new name can be put on the path. -/
theorem Explored.enter (h : r.Explored path visited) (hid : id ∉ visited) :
    r.Explored (path ++ [id]) (id :: visited) := by
  have hold : ∀ v ∈ id :: visited, v ∉ path ++ [id] → v ∈ visited ∧ v ∉ path := by
    intro v hv hpath
    simp only [List.mem_append, List.mem_singleton, not_or] at hpath
    exact ⟨(List.mem_cons.1 hv).resolve_left hpath.2, hpath.1⟩
  constructor
  · intro v hv hpath t ht
    obtain ⟨hv, hpath⟩ := hold v hv hpath
    obtain ⟨htv, htp⟩ := h.closed v hv hpath t ht
    have hne : t ≠ id := by
      intro he
      exact hid (he ▸ htv)
    exact ⟨List.mem_cons_of_mem id htv, by simp [htp, hne]⟩
  · intro v hv hpath
    obtain ⟨hv, hpath⟩ := hold v hv hpath
    exact h.acyclic v hv hpath

/-- The last name of the path can be left behind when all that it refers to is. -/
theorem Explored.leave (h : r.Explored (path ++ [id]) visited)
    (ht : ∀ t, r.resolver.Refers id t → t ∈ visited ∧ t ∉ path ++ [id]) :
    r.Explored path visited := by
  have hcases : ∀ v ∉ path, v = id ∨ v ∉ path ++ [id] := by
    intro v hpath
    by_cases hv : v = id
    · exact .inl hv
    · exact .inr (by simp [hpath, hv])
  constructor
  · intro v hv hpath t hrefers
    have hmem : t ∈ visited ∧ t ∉ path ++ [id] := by
      rcases hcases v hpath with rfl | hpath
      · exact ht t hrefers
      · exact h.closed v hv hpath t hrefers
    have hnew : t ∉ path := by
      intro hpath
      exact hmem.2 (List.mem_append_left _ hpath)
    exact ⟨hmem.1, hnew⟩
  · intro v hv hpath
    rcases hcases v hpath with rfl | hpath
    · apply Resolver.not_onCircle_of_closed (P := fun x => x ∈ visited ∧ x ∉ path ++ [v]) ?_ ht
      · intro a b ha hab
        exact h.closed a ha.1 ha.2 b hab
      · intro hv
        exact hv.2 (List.mem_append_right _ (List.mem_singleton_self v))
    · exact h.acyclic v hv hpath

/-- What a search from one name leaves: the name is left behind, and what was visited still is. -/
structure Left (r : Registry) (path visited visited' : List ModuleId) (id : ModuleId) : Prop where
  /-- The search has kept its knowledge. -/
  explored : r.Explored path visited'
  /-- What was visited is still visited. -/
  grows : ∀ v ∈ visited, v ∈ visited'
  /-- The name is visited. -/
  visited : id ∈ visited'
  /-- The name is not on the path. -/
  new : id ∉ path

/-- A search from names in turn leaves all of them behind if each single search does. -/
theorem left_of_foldlM_eq_ok {ids : List ModuleId} {search : List ModuleId → ModuleId → Search}
    (hsearch : ∀ id ∈ ids, ∀ visited visited', r.Explored path visited →
      search visited id = .ok visited' → r.Left path visited visited' id)
    (hexplored : r.Explored path visited) (h : ids.foldlM search visited = .ok visited') :
    r.Explored path visited' ∧ (∀ v ∈ visited, v ∈ visited') ∧
      ∀ id ∈ ids, id ∈ visited' ∧ id ∉ path := by
  induction ids generalizing visited with
  | nil =>
    cases h
    exact ⟨hexplored, fun _ hv => hv, fun _ hid => absurd hid List.not_mem_nil⟩
  | cons id rest ih =>
    rw [List.foldlM_cons] at h
    cases hid : search visited id with
    | error chain =>
      rw [hid] at h
      cases h
    | ok middle =>
      rw [hid] at h
      have hleft := hsearch id List.mem_cons_self visited middle hexplored hid
      obtain ⟨hexplored', hgrows, hrest⟩ := ih
        (fun id' hid' => hsearch id' (List.mem_cons_of_mem id hid')) hleft.explored h
      refine ⟨hexplored', ?_, ?_⟩
      · intro v hv
        exact hgrows v (hleft.grows v hv)
      · intro id' hid'
        rcases List.mem_cons.1 hid' with rfl | hid'
        · exact ⟨hgrows _ hleft.visited, hleft.new⟩
        · exact hrest id' hid'

/-- A search from a name along a path, deep enough, leaves the name behind unless it finds a
circle. -/
theorem left_of_searchFrom_eq_ok {main : ModuleId} (hpath : r.resolver.IsPath main path id)
    (hdepth : r.size < depth + path.length) (hexplored : r.Explored path visited)
    (h : r.searchFrom depth path visited id = .ok visited') :
    r.Left path visited visited' id := by
  induction depth generalizing path visited visited' id with
  | zero =>
    have hlength := hpath.length_le
    rw [size_resolver] at hlength
    omega
  | succ depth ih =>
    unfold searchFrom at h
    split at h
    · cases h
    · next hnew =>
      split at h
      · next hvisited =>
        cases h
        exact ⟨hexplored, fun _ hv => hv, hvisited, hnew⟩
      · next hvisited =>
        have hdepth' : r.size < depth + (path ++ [id]).length := by
          rw [List.length_append, List.length_singleton]
          omega
        obtain ⟨hexplored', hgrows, hrefs⟩ := left_of_foldlM_eq_ok
          (fun t ht _ _ hex hsearch =>
            ih (hpath.step hnew (mem_referencesOf_iff.1 ht)) hdepth' hex hsearch)
          (hexplored.enter hvisited) h
        refine ⟨hexplored'.leave ?_, ?_, hgrows id List.mem_cons_self, hnew⟩
        · intro t ht
          exact hrefs t (mem_referencesOf_iff.2 ht)
        · intro v hv
          exact hgrows v (List.mem_cons_of_mem id hv)

/-- A registry in which no circle is found has none. -/
theorem not_onCircle_of_findCycle?_eq_none (h : r.findCycle? = none) (id : ModuleId) :
    ¬ r.resolver.OnCircle id := by
  unfold findCycle? at h
  split at h
  · next visited hsearch =>
    have hnothing : r.Explored [] [] :=
      ⟨fun _ hv => absurd hv List.not_mem_nil, fun _ hv => absurd hv List.not_mem_nil⟩
    obtain ⟨hexplored, -, hkeys⟩ := left_of_foldlM_eq_ok (fun id _ _ _ hex hsearch =>
      left_of_searchFrom_eq_ok (.nil _ id) (Nat.lt_succ_self r.size) hex hsearch) hnothing hsearch
    intro hcircle
    obtain ⟨t, ⟨s, hs, _⟩, _⟩ := TransGen.head'_iff.1 hcircle
    rw [get?_resolver] at hs
    have hid : id ∈ r.keys := Ascending.mem_keys_iff.2 ⟨s, hs⟩
    obtain ⟨hvisited, hpath⟩ := hkeys id hid
    exact hexplored.acyclic id hvisited hpath hcircle
  · cases h

/-- What a search along a path reports is a circle. -/
theorem exists_circle_of_searchFrom_eq_error {main : ModuleId} {chain : List ModuleId}
    (hpath : r.resolver.IsPath main path id)
    (h : r.searchFrom depth path visited id = .error chain) :
    ∃ first rest, chain = first :: rest ++ [first] ∧ r.resolver.IsCircle main first rest := by
  induction depth generalizing path visited id with
  | zero => cases h
  | succ depth ih =>
    unfold searchFrom at h
    split at h
    · next hid =>
      cases h
      obtain ⟨rest, hdrop, hcircle⟩ := hpath.exists_circle hid
      exact ⟨id, rest, by rw [hdrop], hcircle⟩
    · next hnew =>
      split at h
      · cases h
      · obtain ⟨t, ht, visited', hsearch⟩ := exists_of_foldlM_eq_error h
        exact ih (hpath.step hnew (mem_referencesOf_iff.1 ht)) hsearch

/-- What is reported for a registry is a circle. -/
theorem exists_circle_of_findCycle?_eq_some {chain : List ModuleId}
    (h : r.findCycle? = some chain) :
    ∃ first rest, chain = first :: rest ++ [first] ∧ r.resolver.IsCircle first first rest := by
  unfold findCycle? at h
  split at h
  · cases h
  · next hsearch =>
    cases h
    obtain ⟨id, _, visited, hid⟩ := exists_of_foldlM_eq_error hsearch
    obtain ⟨first, rest, hchain, hcircle⟩ := exists_circle_of_searchFrom_eq_error (.nil _ id) hid
    exact ⟨first, rest, hchain, hcircle.from_first⟩

/-- A circle is found exactly if there is one. -/
theorem findCycle?_eq_none_iff : r.findCycle? = none ↔ ∀ id, ¬ r.resolver.OnCircle id := by
  constructor
  · exact not_onCircle_of_findCycle?_eq_none
  · intro hacyclic
    cases h : r.findCycle? with
    | none => rfl
    | some chain =>
      obtain ⟨first, rest, -, hcircle⟩ := exists_circle_of_findCycle?_eq_some h
      exact absurd hcircle.onCircle (hacyclic first)

/-- Along a path, no depth above the number of names is ever used up. -/
theorem searchFrom_eq_of_lt {main : ModuleId} {depth' : Nat}
    (hpath : r.resolver.IsPath main path id) (hdepth : r.size < depth + path.length)
    (hdepth' : r.size < depth' + path.length) :
    r.searchFrom depth path visited id = r.searchFrom depth' path visited id := by
  induction depth generalizing depth' path visited id with
  | zero =>
    have hlength := hpath.length_le
    rw [size_resolver] at hlength
    omega
  | succ depth ih =>
    obtain ⟨deeper, rfl⟩ : ∃ deeper, depth' = deeper + 1 := by
      have hlength := hpath.length_le
      rw [size_resolver] at hlength
      exact ⟨depth' - 1, by omega⟩
    unfold searchFrom
    split
    · rfl
    · next hnew =>
      split
      · rfl
      · refine foldlM_congr (fun t ht visited' => ?_) _
        have hlength : (path ++ [id]).length = path.length + 1 := List.length_append
        exact ih (hpath.step hnew (mem_referencesOf_iff.1 ht)) (by omega) (by omega)

end Registry

end WorkflowEngine
