import WorkflowEngine.Registry
import WorkflowEngine.Proofs.Ascending
import Mathlib.Logic.Relation

/-!
# References between specifications

A specification contains itself and whatever its children contain. It refers to the targets of all
references that it contains, and a resolver thereby turns into a graph of names. Names reach each
other along that graph; a name that reaches itself by at least one reference lies on a circle.
-/

namespace WorkflowEngine

open Relation

namespace ModuleSpec

/-- What stands anywhere inside a specification, the specification itself included. -/
inductive Contains : ModuleSpec → ModuleSpec → Prop where
  /-- A specification contains itself. -/
  | self (s : ModuleSpec) : Contains s s
  /-- A specification contains what its children contain. -/
  | child {s c n : ModuleSpec} (hc : c ∈ s.children) (hn : Contains c n) : Contains s n

theorem contains_iff {s n : ModuleSpec} :
    s.Contains n ↔ n = s ∨ ∃ c ∈ s.children, c.Contains n := by
  constructor
  · intro h
    cases h with
    | self => exact .inl rfl
    | child hc hn => exact .inr ⟨_, hc, hn⟩
  · rintro (rfl | ⟨c, hc, hn⟩)
    · exact .self n
    · exact .child hc hn

/-- What is contained in something contained is contained. -/
theorem Contains.trans {s c n : ModuleSpec} (hc : s.Contains c) (hn : c.Contains n) :
    s.Contains n := by
  induction hc with
  | self => exact hn
  | child hmem _ ih => exact .child hmem (ih hn)

/-- A property of all that is contained is one of the specification itself and of all that its
children contain. -/
theorem forall_contains_iff {P : ModuleSpec → Prop} {s : ModuleSpec} :
    (∀ n, s.Contains n → P n) ↔ P s ∧ ∀ c ∈ s.children, ∀ n, c.Contains n → P n := by
  constructor
  · intro h
    refine ⟨h s (.self s), ?_⟩
    intro c hc n hn
    exact h n (.child hc hn)
  · rintro ⟨hs, hc⟩ n hn
    rcases contains_iff.1 hn with rfl | ⟨c, hmem, hn⟩
    · exact hs
    · exact hc c hmem n hn

/-- The targets of all references inside a specification, in the order in which they stand. -/
def targets : ModuleSpec → List ModuleId :=
  fold fun _ _ k => k.target?.toList ++ k.children.flatten

/-- The targets of a specification are its own and those of its children. -/
theorem targets_mk (id : ModuleId) (sig : Signature) (k : Kind ModuleId ModuleSpec) :
    targets (.mk id sig k) = k.target?.toList ++ k.children.flatMap targets := by
  rw [targets, fold_mk, Kind.target?_map, Kind.children_map, List.flatMap_def]
  simp

/-- The targets are those of the references that the specification contains. -/
theorem mem_targets_iff {s : ModuleSpec} {t : ModuleId} :
    t ∈ s.targets ↔ ∃ n, s.Contains n ∧ n.kind.target? = some t := by
  induction s using induct with
  | step id sig k ih =>
    rw [targets_mk, List.mem_append, Option.mem_toList, List.mem_flatMap]
    constructor
    · rintro (h | ⟨c, hc, h⟩)
      · exact ⟨_, .self _, h⟩
      · obtain ⟨n, hn, ht⟩ := (ih c hc).1 h
        exact ⟨n, .child hc hn, ht⟩
    · rintro ⟨n, hn, ht⟩
      rcases contains_iff.1 hn with rfl | ⟨c, hc, hn⟩
      · exact .inl ht
      · exact .inr ⟨c, hc, (ih c hc).2 ⟨n, hn, ht⟩⟩

/-- The references gathered from a specification are exactly its targets. -/
theorem mem_references_iff {s : ModuleSpec} {t : ModuleId} :
    t ∈ s.references.toList ↔ t ∈ s.targets := by
  induction s using induct with
  | step id sig k ih =>
    rw [references, fold_mk, gatherReferences, Kind.target?_map, Kind.children_map,
      TextSet.mem_foldl_insertAll (fun refs => refs), TextSet.mem_ofList, targets_mk,
      List.mem_append, List.mem_flatMap]
    refine or_congr (by simp) ?_
    simp only [List.mem_map, exists_exists_and_eq_and]
    exact exists_congr fun c => and_congr_right fun hc => ih c hc

end ModuleSpec

namespace Resolver

/-- One name refers to another: its specification contains a reference to it. -/
def Refers (r : Resolver) (a b : ModuleId) : Prop :=
  ∃ s, r.get? a = some s ∧ b ∈ s.references.toList

/-- One name leads to another by any number of references, none included. -/
def Reaches (r : Resolver) : ModuleId → ModuleId → Prop := ReflTransGen r.Refers

/-- A name leads back to itself by at least one reference. -/
def OnCircle (r : Resolver) (id : ModuleId) : Prop := TransGen r.Refers id id

/-- Every specification is bound to its own name. -/
def OwnNames (r : Resolver) : Prop := ∀ id s, r.get? id = some s → s.id = id

variable {r : Resolver}

/-- A name that something is bound to is a name of the resolver. -/
theorem mem_keys_of_get? {id : ModuleId} {s : ModuleSpec} (hs : r.get? id = some s) :
    id ∈ r.keys := by
  obtain ⟨⟨_, _⟩, hp, rfl⟩ := Option.map_eq_some_iff.1 hs
  exact Ascending.mem_keys_iff.2 ⟨_, hp⟩

theorem refers_of_mem_targets {id t : ModuleId} {s : ModuleSpec} (hs : r.get? id = some s)
    (ht : t ∈ s.targets) : r.Refers id t :=
  ⟨s, hs, ModuleSpec.mem_references_iff.2 ht⟩

theorem mem_targets_of_refers {id t : ModuleId} {s : ModuleSpec} (hs : r.get? id = some s)
    (h : r.Refers id t) : t ∈ s.targets := by
  obtain ⟨s', hs', ht⟩ := h
  rw [hs] at hs'
  cases hs'
  exact ModuleSpec.mem_references_iff.1 ht

/-- A set of names that references do not leave has every name that one of its names reaches. -/
theorem mem_of_reaches {P : ModuleId → Prop} (hclosed : ∀ a b, P a → r.Refers a b → P b)
    {a b : ModuleId} (ha : P a) (h : r.Reaches a b) : P b := by
  induction h with
  | refl => exact ha
  | tail _ hbc ih => exact hclosed _ _ ih hbc

/-- A name whose references lead into a set that references do not leave, and that it does not
belong to, is on no circle. -/
theorem not_onCircle_of_closed {P : ModuleId → Prop} {id : ModuleId} (hid : ¬ P id)
    (hstep : ∀ t, r.Refers id t → P t) (hclosed : ∀ a b, P a → r.Refers a b → P b) :
    ¬ r.OnCircle id := by
  intro hcircle
  obtain ⟨t, ht, hback⟩ := TransGen.head'_iff.1 hcircle
  exact hid (mem_of_reaches hclosed (hstep t ht) hback)

end Resolver

namespace Registry

/-- A registry binds every specification to its own name. -/
theorem ownNames_resolver (r : Registry) : r.resolver.OwnNames := by
  intro id s h
  rw [get?_resolver, Ascending.find?_eq_some_iff] at h
  exact h.2

/-- A resolver has as many names as its registry has specifications. -/
theorem size_resolver (r : Registry) : r.resolver.size = r.size := List.length_map _

end Registry

end WorkflowEngine
