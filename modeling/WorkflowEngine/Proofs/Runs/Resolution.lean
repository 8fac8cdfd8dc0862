import WorkflowEngine.Execution
import WorkflowEngine.Proofs.Except

/-!
# What is resolved for a child

The inputs resolved for a child are what is bound to the sources of the inputs that it declares, one
declaration after the other and each under its declaration. The policy only decides whether there
may be an input to whose source nothing is bound.
-/

namespace WorkflowEngine

variable {child : ModuleId} {mapping : Dictionary String} {policy : InputPolicy}
  {available : ValueSet} {specs : List ValueSpec} {input : List Value}

/-- What is bound to the sources of declared inputs, in the order of the declarations and under
them. -/
def resolved (mapping : Dictionary String) (available : ValueSet) (specs : List ValueSpec) :
    List Value :=
  specs.filterMap fun spec =>
    (available.get? (sourceName mapping spec)).map fun v => v.rebind spec

@[simp] theorem sourceName_empty (spec : ValueSpec) : sourceName .empty spec = spec.name := rfl

/-- Without a mapping, resolving is projecting. -/
theorem resolved_empty (available : ValueSet) (specs : List ValueSpec) :
    resolved .empty available specs = available.project specs := rfl

theorem resolved_cons (spec : ValueSpec) (rest : List ValueSpec) :
    resolved mapping available (spec :: rest) =
      ((available.get? (sourceName mapping spec)).map fun v => v.rebind spec).toList ++
        resolved mapping available rest := by
  unfold resolved
  rw [List.filterMap_cons]
  cases available.get? (sourceName mapping spec) <;> rfl

theorem mem_resolved_iff {v : Value} :
    v ∈ resolved mapping available specs ↔
      ∃ spec ∈ specs, ∃ w, available.get? (sourceName mapping spec) = some w ∧
        w.rebind spec = v := by
  simp only [resolved, List.mem_filterMap, Option.map_eq_some_iff]

/-- What is resolved are some of the declared inputs, in their order. -/
theorem map_spec_resolved_sublist (mapping : Dictionary String) (available : ValueSet)
    (specs : List ValueSpec) :
    ((resolved mapping available specs).map Value.spec).Sublist specs := by
  induction specs with
  | nil => exact .slnil
  | cons spec rest ih =>
    rw [resolved_cons]
    cases available.get? (sourceName mapping spec) with
    | none => exact ih.cons spec
    | some v => exact ih.cons_cons spec

/-- A declared input is absent exactly if nothing is bound to its source. -/
theorem notMem_map_spec_resolved_iff {spec : ValueSpec} (hspec : spec ∈ specs) :
    spec ∉ (resolved mapping available specs).map Value.spec ↔
      available.get? (sourceName mapping spec) = none := by
  rw [← not_iff_not, not_not, ← ne_eq, Option.ne_none_iff_exists']
  constructor
  · intro h
    obtain ⟨v, hv, rfl⟩ := List.mem_map.1 h
    obtain ⟨spec, -, w, hw, rfl⟩ := mem_resolved_iff.1 hv
    exact ⟨w, hw⟩
  · rintro ⟨w, hw⟩
    exact List.mem_map.2 ⟨w.rebind spec, mem_resolved_iff.2 ⟨spec, hspec, w, hw, rfl⟩, rfl⟩

/-- What is resolved has the content bound to the source of its name. -/
theorem payload_of_mem_resolved {v : Value} (h : v ∈ resolved mapping available specs) :
    (available.get? ((mapping.get? v.name).getD v.name)).map Value.payload = some v.payload := by
  obtain ⟨spec, -, w, hw, rfl⟩ := mem_resolved_iff.1 h
  have hsource : available.get? ((mapping.get? (w.rebind spec).name).getD (w.rebind spec).name) =
      some w := hw
  rw [hsource]
  rfl

/-- Whether all inputs that are required have something bound to their sources. -/
def AllBound (mapping : Dictionary String) (available : ValueSet) (specs : List ValueSpec) : Prop :=
  ∀ spec ∈ specs, spec.optional = false → available.get? (sourceName mapping spec) ≠ none

/-- An input to whose source something is bound asks nothing of the others. -/
theorem allBound_cons_of_some {spec : ValueSpec} {rest : List ValueSpec} {v : Value}
    (hv : available.get? (sourceName mapping spec) = some v) :
    AllBound mapping available (spec :: rest) ↔ AllBound mapping available rest := by
  rw [AllBound, List.forall_mem_cons, hv]
  exact and_iff_right fun _ => nofun

/-- An input to whose source nothing is bound has to be optional. -/
theorem allBound_cons_of_none {spec : ValueSpec} {rest : List ValueSpec}
    (hv : available.get? (sourceName mapping spec) = none) :
    AllBound mapping available (spec :: rest) ↔
      spec.optional = true ∧ AllBound mapping available rest := by
  rw [AllBound, List.forall_mem_cons, hv]
  simp only [ne_eq, not_true_eq_false, imp_false, Bool.not_eq_false]
  rfl

/-- Inputs are resolved unless the policy is strict and one that is required has nothing bound to
its source. -/
theorem resolveInputs_eq_ok_iff :
    resolveInputs child mapping policy available specs = .ok input ↔
      (policy = .strict → AllBound mapping available specs) ∧
        input = resolved mapping available specs := by
  induction specs generalizing input with
  | nil =>
    have hbound : AllBound mapping available [] := fun _ h => absurd h List.not_mem_nil
    rw [resolveInputs, Except.ok.injEq, eq_comm]
    exact (and_iff_right fun _ => hbound).symm
  | cons spec rest ih =>
    rw [resolved_cons, resolveInputs]
    cases hv : available.get? (sourceName mapping spec) with
    | some v =>
      rw [allBound_cons_of_some hv]
      simp only [map_eq_ok_iff, ih]
      constructor
      · rintro ⟨_, ⟨hrest, rfl⟩, rfl⟩
        exact ⟨hrest, rfl⟩
      · rintro ⟨hrest, rfl⟩
        exact ⟨_, ⟨hrest, rfl⟩, rfl⟩
    | none =>
      rw [allBound_cons_of_none hv]
      simp only [Option.map_none, Option.toList_none, List.nil_append]
      split
      · next hfails =>
        simp only [InputPolicy.isStrict, Bool.and_eq_true, Bool.not_eq_true', beq_iff_eq] at hfails
        simp [hfails]
      · next hpasses =>
        simp only [InputPolicy.isStrict, Bool.and_eq_true, Bool.not_eq_true', beq_iff_eq, not_and,
          Bool.eq_false_iff] at hpasses
        rw [ih]
        refine and_congr_left fun _ => forall_congr' fun hstrict => ?_
        exact (and_iff_right (by_contra fun hoptional => hpasses hoptional hstrict)).symm

/-- Under the lenient policy inputs are always resolved. -/
theorem resolveInputs_lenient (child : ModuleId) (mapping : Dictionary String)
    (available : ValueSet) (specs : List ValueSpec) :
    resolveInputs child mapping .lenient available specs = .ok (resolved mapping available specs) :=
  resolveInputs_eq_ok_iff.2 ⟨nofun, rfl⟩

end WorkflowEngine
