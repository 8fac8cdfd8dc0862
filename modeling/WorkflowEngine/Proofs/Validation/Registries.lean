import WorkflowEngine.Proofs.Except
import WorkflowEngine.Proofs.Validation.Checks
import WorkflowEngine.Proofs.Validation.Search

/-!
# When a registry is valid

A registry passes validation exactly when all its specifications do, everything that they refer to
is registered, and no references form a circle. Every failure names what it has been found on: a
fault of a specification, a name that is referred to and not registered, or a circle. In which order
the references are looked at decides which failure is reported and nothing else.
-/

namespace WorkflowEngine

/-- What a list of checks fails with is what one of them fails with. -/
theorem mem_of_firstFailure_eq_error {checks : List (Except Error Unit)} {e : Error}
    (h : firstFailure checks = .error e) : .error e ∈ checks := by
  induction checks with
  | nil => cases h
  | cons c rest ih =>
    cases c with
    | ok u => exact List.mem_cons_of_mem _ (ih h)
    | error e' =>
      cases h
      exact List.mem_cons_self

/-! ## Faults of specifications -/

namespace Kind

theorem exists_fault_of_demand {present : Bool} {fault : SpecFault} {e : Error}
    (h : demand present fault = .error e) : ∃ fault, e = .validation fault := by
  unfold demand at h
  split at h
  · cases h
  · cases h
    exact ⟨fault, rfl⟩

theorem exists_fault_of_checkKeys {α : Type} {id : ModuleId} {seen : List Payload}
    {cases : List (Case α)} {e : Error} (h : checkKeys id seen cases = .error e) :
    ∃ fault, e = .validation fault := by
  induction cases generalizing seen with
  | nil => cases h
  | cons c rest ih =>
    unfold checkKeys at h
    split at h
    · cases h
      exact ⟨_, rfl⟩
    · exact ih h

/-- A wrong number of outputs is a fault of a specification. -/
theorem exists_fault_of_checkOutput {id : ModuleId} {signature : Signature} {y : Except Error Unit}
    {e : Error} (hy : y = .error e → ∃ fault, e = .validation fault)
    (h : (signature.singleOutput id *> y) = .error e) : ∃ fault, e = .validation fault := by
  cases hout : signature.singleOutput id with
  | ok spec =>
    rw [hout] at h
    exact hy h
  | error e' =>
    rw [hout] at h
    cases h
    unfold Signature.singleOutput at hout
    split at hout
    · cases hout
    · cases hout
      exact ⟨_, rfl⟩

/-- A kind of module fails its checks as a validation does. -/
theorem exists_fault_of_check {α : Type} {id : ModuleId} {signature : Signature}
    {kind : Kind ModuleId α} {e : Error} (h : kind.check id signature = .error e) :
    ∃ fault, e = .validation fault := by
  cases kind with
  | llm template => exact exists_fault_of_checkOutput (y := .ok ()) nofun h
  | tool name => exact exists_fault_of_checkOutput exists_fault_of_demand h
  | jsonExtract path => exact exists_fault_of_demand h
  | switch condition cases fallback =>
    rcases bind_eq_error_iff.1 h with h | ⟨_, _, h⟩
    · exact exists_fault_of_demand h
    · exact exists_fault_of_checkKeys h
  | sequential _ | parallel _ | subWorkflow _ | http => cases h

/-- A target without a name is a fault of a specification. -/
theorem exists_fault_of_checkTarget {α : Type} {id : ModuleId} {kind : Kind ModuleId α} {e : Error}
    (h : kind.checkTarget id = .error e) : ∃ fault, e = .validation fault := by
  cases kind with
  | subWorkflow target => exact exists_fault_of_demand h
  | sequential _ | parallel _ | switch _ _ _ | llm _ | tool _ | http | jsonExtract _ => cases h

end Kind

/-- A specification fails its checks as a validation does. -/
theorem ModuleSpec.exists_fault_of_validate {s : ModuleSpec} {e : Error}
    (h : s.validate = .error e) : ∃ fault, e = .validation fault := by
  induction s using induct with
  | step id signature kind ih =>
    rw [validate, fold_mk, checkNode] at h
    rcases bind_eq_error_iff.1 h with h | ⟨_, _, h⟩
    · exact Kind.exists_fault_of_demand h
    rcases bind_eq_error_iff.1 h with h | ⟨_, _, h⟩
    · exact Signature.exists_fault_of_check h
    rcases bind_eq_error_iff.1 h with h | ⟨_, _, h⟩
    · exact Kind.exists_fault_of_check h
    rcases bind_eq_error_iff.1 h with h | ⟨_, _, h⟩
    · exact Kind.exists_fault_of_checkTarget h
    have hmem := mem_of_firstFailure_eq_error h
    rw [Kind.children_map] at hmem
    obtain ⟨c, hc, hfail⟩ := List.mem_map.1 hmem
    exact ih c hc hfail

namespace Registry

variable {r : Registry}

/-! ## References -/

/-- The references of a specification pass exactly when each of them is registered and is another
specification's name. -/
theorem checkReferences_eq_ok_iff {s : ModuleSpec} :
    r.checkReferences s = .ok () ↔
      ∀ t ∈ s.references.toList, r.contains t = true ∧ t ≠ s.id := by
  unfold checkReferences
  rw [firstFailure_eq_ok_iff, List.forall_mem_map]
  refine forall₂_congr fun t _ => ?_
  split
  · next hcontains => exact iff_of_false nofun fun h => by simp [h.1] at hcontains
  · next hcontains =>
    have hcontains : r.contains t = true := by simpa using hcontains
    split
    · next hself => exact iff_of_false nofun fun h => h.2 hself
    · next hself => exact iff_of_true rfl ⟨hcontains, hself⟩

/-- The references of a specification fail because one of them is not registered or is its own
name. -/
theorem exists_of_checkReferences_eq_error {s : ModuleSpec} {e : Error}
    (h : r.checkReferences s = .error e) :
    (∃ t ∈ s.references.toList, r.find? t = none ∧ e = .unresolvedReference t) ∨
      (s.id ∈ s.references.toList ∧ e = .cyclicWorkflow [s.id, s.id]) := by
  obtain ⟨t, ht, hcheck⟩ := List.mem_map.1 (mem_of_firstFailure_eq_error h)
  split at hcheck
  · next hcontains =>
    cases hcheck
    refine .inl ⟨t, ht, ?_, rfl⟩
    rw [Option.eq_none_iff_forall_ne_some]
    intro a ha
    rw [Ascending.contains_iff.2 ⟨a, ha⟩] at hcontains
    cases hcontains
  · split at hcheck
    · next hself =>
      cases hcheck
      exact .inr ⟨hself ▸ ht, by rw [hself]⟩
    · cases hcheck

/-- A registered specification refers to the names among its references. -/
theorem refers_of_mem_references {s : ModuleSpec} (hs : s ∈ r.toList) {t : ModuleId}
    (ht : t ∈ s.references.toList) : r.resolver.Refers s.id t := by
  refine ⟨s, ?_, ht⟩
  rw [get?_resolver]
  exact Ascending.find?_eq_some_iff.2 ⟨hs, rfl⟩

/-- A specification that refers to itself is a circle. -/
theorem isCircle_self {s : ModuleSpec} (hs : s ∈ r.toList) (hself : s.id ∈ s.references.toList) :
    r.resolver.IsCircle s.id s.id [] where
  nodup := List.nodup_singleton s.id
  reached := fun id hid => by
    rw [List.mem_singleton.1 hid]
    exact .refl
  resolved := fun id hid => by
    rw [List.mem_singleton.1 hid, get?_resolver]
    exact ⟨s, Ascending.find?_eq_some_iff.2 ⟨hs, rfl⟩⟩
  chain := List.isChain_pair.2 (refers_of_mem_references hs hself)

/-! ## Registries -/

/-- What validating a registry makes sure of. -/
structure Valid (r : Registry) : Prop where
  /-- Everything inside the specifications is valid. -/
  nodes : ∀ s ∈ r.toList, ∀ n, s.Contains n → n.Valid
  /-- Everything that is referred to is registered. -/
  registered : ∀ s ∈ r.toList, ∀ t ∈ s.references.toList, ∃ target, r.find? t = some target
  /-- There is no circle of references. -/
  acyclic : ∀ id, ¬ r.resolver.OnCircle id

/-- A registry passes validation exactly when it is valid, in whatever order its references are
looked at. -/
theorem validateIn_eq_ok_iff {order : List ModuleSpec} (horder : order.Perm r.toList) :
    r.validateIn order = .ok () ↔ r.Valid := by
  unfold validateIn
  rw [check_then_eq_ok_iff, check_then_eq_ok_iff, firstFailure_eq_ok_iff, firstFailure_eq_ok_iff,
    List.forall_mem_map, List.forall_mem_map]
  constructor
  · rintro ⟨hnodes, hreferences, hsearch⟩
    refine ⟨fun s hs => ModuleSpec.validate_eq_ok_iff.1 (hnodes s hs), ?_, ?_⟩
    · intro s hs t ht
      have hcheck := checkReferences_eq_ok_iff.1 (hreferences s (horder.mem_iff.2 hs)) t ht
      exact Ascending.contains_iff.1 hcheck.1
    · split at hsearch
      · cases hsearch
      · next hnone => exact findCycle?_eq_none_iff.1 hnone
  · intro h
    have hreferences : ∀ s ∈ order, r.checkReferences s = .ok () := by
      intro s hs
      have hs := horder.mem_iff.1 hs
      rw [checkReferences_eq_ok_iff]
      intro t ht
      refine ⟨Ascending.contains_iff.2 (h.registered s hs t ht), ?_⟩
      rintro rfl
      exact h.acyclic s.id (.single (refers_of_mem_references hs ht))
    refine ⟨fun s hs => ModuleSpec.validate_eq_ok_iff.2 (h.nodes s hs), hreferences, ?_⟩
    rw [findCycle?_eq_none_iff.2 h.acyclic]

/-- What validation of a registry can fail with. -/
inductive Faulty (r : Registry) : Error → Prop where
  /-- A specification fails its own checks. -/
  | fault {s : ModuleSpec} (hs : s ∈ r.toList) {fault : SpecFault}
    (h : s.validate = .error (.validation fault)) : Faulty r (.validation fault)
  /-- A specification refers to a name that is not registered. -/
  | unresolved {s : ModuleSpec} (hs : s ∈ r.toList) {t : ModuleId} (ht : t ∈ s.references.toList)
    (h : r.find? t = none) : Faulty r (.unresolvedReference t)
  /-- References form a circle. -/
  | circle {first : ModuleId} {rest : List ModuleId} (h : r.resolver.IsCircle first first rest) :
    Faulty r (.cyclicWorkflow (first :: rest ++ [first]))

/-- Whatever a registry fails with is there to be found. -/
theorem faulty_of_validateIn_eq_error {order : List ModuleSpec} (horder : order.Perm r.toList)
    {e : Error} (h : r.validateIn order = .error e) : r.Faulty e := by
  unfold validateIn at h
  rcases bind_eq_error_iff.1 h with h | ⟨_, _, h⟩
  · obtain ⟨s, hs, hfail⟩ := List.mem_map.1 (mem_of_firstFailure_eq_error h)
    obtain ⟨fault, rfl⟩ := ModuleSpec.exists_fault_of_validate hfail
    exact .fault hs hfail
  rcases bind_eq_error_iff.1 h with h | ⟨_, _, h⟩
  · obtain ⟨s, hs, hfail⟩ := List.mem_map.1 (mem_of_firstFailure_eq_error h)
    have hs := horder.mem_iff.1 hs
    rcases exists_of_checkReferences_eq_error hfail with ⟨t, ht, hnone, rfl⟩ | ⟨hself, rfl⟩
    · exact .unresolved hs ht hnone
    · exact .circle (isCircle_self hs hself)
  · split at h
    · next chain hchain =>
      cases h
      obtain ⟨first, rest, rfl, hcircle⟩ := exists_circle_of_findCycle?_eq_some hchain
      exact .circle hcircle
    · cases h

/-- Validation of a registry decides what it promises to decide, in whatever order the references of
the specifications are looked at:

1. the search comes to its end: no depth above the number of registered names is ever used up;
2. a registry passes exactly when every specification passes, every name that a specification refers
   to is registered, and no name leads back to itself by references;
3. an unresolved reference is one of a specification to a name that is not registered;
4. a reported chain is a circle: its names are distinct but for the last, which is the first again,
   and each of them is registered and refers to the next;
5. every other error is what a specification's own validation fails with. -/
theorem validateIn_correct (r : Registry) {order : List ModuleSpec}
    (horder : order.Perm r.toList) :
    (∀ depth, r.size < depth →
      r.keys.foldlM (r.searchFrom depth []) [] =
        r.keys.foldlM (r.searchFrom (r.size + 1) []) []) ∧
    (r.validateIn order = .ok () ↔
      (∀ s ∈ r.toList, s.validate = .ok ()) ∧
      (∀ s ∈ r.toList, ∀ t ∈ s.references.toList, ∃ target, r.find? t = some target) ∧
      ∀ id, ¬ r.resolver.OnCircle id) ∧
    (∀ t, r.validateIn order = .error (.unresolvedReference t) →
      ∃ s ∈ r.toList, t ∈ s.references.toList ∧ r.find? t = none) ∧
    (∀ chain, r.validateIn order = .error (.cyclicWorkflow chain) →
      ∃ first rest, chain = first :: rest ++ [first] ∧ r.resolver.IsCircle first first rest) ∧
    ∀ e, r.validateIn order = .error e → (∃ t, e = .unresolvedReference t) ∨
      (∃ chain, e = .cyclicWorkflow chain) ∨ ∃ s ∈ r.toList, s.validate = .error e := by
  refine ⟨?_, ?_, ?_, ?_, ?_⟩
  · intro depth hdepth
    refine foldlM_congr (fun id _ visited => ?_) []
    exact searchFrom_eq_of_lt (.nil r.resolver id) hdepth (Nat.lt_succ_self r.size)
  · rw [validateIn_eq_ok_iff horder]
    simp only [ModuleSpec.validate_eq_ok_iff]
    exact ⟨fun h => ⟨h.nodes, h.registered, h.acyclic⟩, fun h => ⟨h.1, h.2.1, h.2.2⟩⟩
  · intro t h
    cases faulty_of_validateIn_eq_error horder h with
    | unresolved hs ht hnone => exact ⟨_, hs, ht, hnone⟩
  · intro chain h
    cases faulty_of_validateIn_eq_error horder h with
    | circle hcircle => exact ⟨_, _, rfl, hcircle⟩
  · intro e h
    cases faulty_of_validateIn_eq_error horder h with
    | fault hs hfail => exact .inr (.inr ⟨_, hs, hfail⟩)
    | unresolved _ _ _ => exact .inl ⟨_, rfl⟩
    | circle _ => exact .inr (.inl ⟨_, rfl⟩)

/-- Two specifications that refer to each other. -/
def backAndForth : Registry :=
  ⟨[.mk "a" .empty (.subWorkflow "b"), .mk "b" .empty (.subWorkflow "a")],
    List.pairwise_pair.2 (by decide)⟩

/-- The circle of two specifications that refer to each other is reported, whichever of them is
looked at first. -/
theorem exists_circle_backAndForth :
    backAndForth.validateIn backAndForth.toList.reverse = .error (.cyclicWorkflow ["a", "b", "a"]) ∧
      ∃ first rest, ["a", "b", "a"] = first :: rest ++ [first] ∧
        backAndForth.resolver.IsCircle first first rest := by
  have hvalidate : backAndForth.validateIn backAndForth.toList.reverse =
      .error (.cyclicWorkflow ["a", "b", "a"]) := rfl
  obtain ⟨-, -, -, hcircle, -⟩ :=
    validateIn_correct backAndForth (List.reverse_perm backAndForth.toList)
  exact ⟨hvalidate, hcircle _ hvalidate⟩

end Registry

end WorkflowEngine
