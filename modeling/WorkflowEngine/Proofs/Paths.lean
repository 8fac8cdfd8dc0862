import WorkflowEngine.Proofs.References
import Mathlib.Data.List.Chain
import Mathlib.Data.List.Perm.Subperm

/-!
# Paths of references

Compiling and searching both follow references along a path: distinct names, all of them resolved,
each referring to the next and the last one to the name at hand. A path cannot be longer than there
are names, and a name that stands on its own path closes a circle.
-/

namespace WorkflowEngine

open Relation

namespace Resolver

/-- The circle that a chain of names spells out, which starts and ends with the same name: no other
name repeats, every name can be reached and resolved, and each refers to the next. -/
structure IsCircle (r : Resolver) (main : ModuleId) (first : ModuleId) (rest : List ModuleId) :
    Prop where
  /-- Apart from the last name, which is the first again, no name repeats. -/
  nodup : (first :: rest).Nodup
  /-- Every name can be reached. -/
  reached : ∀ id ∈ first :: rest, r.Reaches main id
  /-- Every name can be resolved. -/
  resolved : ∀ id ∈ first :: rest, ∃ s, r.get? id = some s
  /-- Each name refers to the next, and the last one to the first. -/
  chain : (first :: rest ++ [first]).IsChain r.Refers

/-- The names on the way from a starting point to the name at hand. -/
structure IsPath (r : Resolver) (main : ModuleId) (path : List ModuleId) (id : ModuleId) :
    Prop where
  /-- No name stands twice on the way. -/
  nodup : path.Nodup
  /-- Every name on the way can be reached, and so can the one at hand. -/
  reached : ∀ p ∈ path ++ [id], r.Reaches main p
  /-- Every name on the way can be resolved. -/
  resolved : ∀ p ∈ path, ∃ s, r.get? p = some s
  /-- Each name refers to the next, and the last one to the name at hand. -/
  chain : (path ++ [id]).IsChain r.Refers

namespace IsPath

variable {r : Resolver} {main : ModuleId} {path : List ModuleId} {id : ModuleId}

/-- The way to the starting point is empty. -/
theorem nil (r : Resolver) (main : ModuleId) : r.IsPath main [] main where
  nodup := List.nodup_nil
  reached := fun _ hp => by
    rw [List.mem_singleton.1 hp]
    exact ReflTransGen.refl
  resolved := fun _ hp => absurd hp List.not_mem_nil
  chain := List.isChain_singleton main

/-- The way goes on along a reference of the name at hand, if that is new. -/
theorem step (h : r.IsPath main path id) (hid : id ∉ path) {t : ModuleId} (ht : r.Refers id t) :
    r.IsPath main (path ++ [id]) t where
  nodup := by
    refine List.nodup_append.2 ⟨h.nodup, List.nodup_singleton id, ?_⟩
    intro p hp q hq he
    rw [he, List.mem_singleton.1 hq] at hp
    exact hid hp
  reached := fun p hp => by
    rcases List.mem_append.1 hp with hp | hp
    · exact h.reached p hp
    · rw [List.mem_singleton.1 hp]
      exact (h.reached id (List.mem_append_right _ (List.mem_singleton_self id))).tail ht
  resolved := fun p hp => by
    rcases List.mem_append.1 hp with hp | hp
    · exact h.resolved p hp
    · rw [List.mem_singleton.1 hp]
      exact ⟨ht.choose, ht.choose_spec.1⟩
  chain := by
    rw [List.append_assoc]
    exact List.isChain_append_cons_cons.2 ⟨h.chain, ht, List.isChain_singleton t⟩

/-- Every name on the way leads to the name at hand by at least one reference. -/
theorem leads (h : r.IsPath main path id) {p : ModuleId} (hp : p ∈ path) :
    TransGen r.Refers p id := by
  have hchain : (path ++ [id]).IsChain (TransGen r.Refers) := h.chain.imp fun _ _ => .single
  have hpairs := List.isChain_iff_pairwise.1 hchain
  exact (List.pairwise_append.1 hpairs).2.2 p hp id (List.mem_singleton_self id)

/-- The way is no longer than there are names. -/
theorem length_le (h : r.IsPath main path id) : path.length ≤ r.size := by
  have hsub : path ⊆ r.keys := by
    intro p hp
    obtain ⟨s, hs⟩ := h.resolved p hp
    exact mem_keys_of_get? hs
  rw [← Ascending.length_keys]
  exact (h.nodup.subperm hsub).length_le

/-- A resolved name that is new can be added to the way, which therefore is shorter than there are
names. -/
theorem length_lt (h : r.IsPath main path id) (hid : id ∉ path) {s : ModuleSpec}
    (hs : r.get? id = some s) : path.length < r.size := by
  have hsub : id :: path ⊆ r.keys := by
    intro p hp
    rcases List.mem_cons.1 hp with rfl | hp
    · exact mem_keys_of_get? hs
    · obtain ⟨s', hs'⟩ := h.resolved p hp
      exact mem_keys_of_get? hs'
  rw [← Ascending.length_keys, Nat.lt_iff_add_one_le]
  exact ((List.nodup_cons.2 ⟨hid, h.nodup⟩).subperm hsub).length_le

/-- A name that stands on its own way closes a circle: the part of the way from that name on. -/
theorem exists_circle (h : r.IsPath main path id) (hid : id ∈ path) :
    ∃ rest, path.dropWhile (· != id) = id :: rest ∧ r.IsCircle main id rest := by
  obtain ⟨before, rest, hsplit⟩ : ∃ before rest, path = before ++ id :: rest ∧
      path.dropWhile (· != id) = id :: rest := by
    clear h
    induction path with
    | nil => exact absurd hid List.not_mem_nil
    | cons p path ih =>
      by_cases hp : p = id
      · exact ⟨[], path, by simp [hp]⟩
      · obtain ⟨before, rest, hpath, hdrop⟩ := ih (by simpa [Ne.symm hp] using hid)
        exact ⟨p :: before, rest, by simp [hpath], by simp [hp, hdrop]⟩
  obtain ⟨hpath, hdrop⟩ := hsplit
  have hmem : ∀ p ∈ id :: rest, p ∈ path := by
    intro p hp
    rw [hpath]
    exact List.mem_append_right before hp
  refine ⟨rest, hdrop, ?_, ?_, ?_, ?_⟩
  · have hnodup := h.nodup
    rw [hpath] at hnodup
    exact (List.nodup_append.1 hnodup).2.1
  · intro p hp
    exact h.reached p (List.mem_append_left _ (hmem p hp))
  · intro p hp
    exact h.resolved p (hmem p hp)
  · have hchain := h.chain
    rw [hpath, List.append_assoc] at hchain
    exact hchain.right_of_append

end IsPath

/-- A circle can be reached from its first name. -/
theorem IsCircle.from_first {r : Resolver} {main first : ModuleId} {rest : List ModuleId}
    (h : r.IsCircle main first rest) : r.IsCircle first first rest where
  nodup := h.nodup
  reached := fun id hid => by
    rcases List.mem_cons.1 hid with rfl | hid
    · exact .refl
    · have hchain : (first :: rest).IsChain (TransGen r.Refers) :=
        h.chain.left_of_append.imp fun _ _ => .single
      exact (List.rel_of_pairwise_cons (List.isChain_iff_pairwise.1 hchain) hid).to_reflTransGen
  resolved := h.resolved
  chain := h.chain

/-- Every name of a circle leads back to itself. -/
theorem IsCircle.onCircle_of_mem {r : Resolver} {main first id : ModuleId} {rest : List ModuleId}
    (h : r.IsCircle main first rest) (hid : id ∈ first :: rest) : r.OnCircle id := by
  have hchain : (first :: rest ++ [first]).IsChain (TransGen r.Refers) :=
    h.chain.imp fun _ _ => .single
  have hpairs := List.isChain_iff_pairwise.1 hchain
  have hback : TransGen r.Refers id first :=
    (List.pairwise_append.1 hpairs).2.2 id hid first (List.mem_singleton_self first)
  exact hback.trans_left (h.from_first.reached id hid)

theorem IsCircle.onCircle {r : Resolver} {main first : ModuleId} {rest : List ModuleId}
    (h : r.IsCircle main first rest) : r.OnCircle first := h.onCircle_of_mem List.mem_cons_self

end Resolver

end WorkflowEngine
