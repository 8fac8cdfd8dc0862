import WorkflowEngine.Compilation
import Mathlib.Data.List.Nodup

/-!
# Derived sides

A side that is derived from the children lists no name twice. If the children declare no name twice
between them, it lists everything that they declare, child after child. In any case it lists, for
each name that some child declares, the first declaration as it stands.
-/

namespace WorkflowEngine

namespace Signature

theorem any_name_iff {side : List ValueSpec} {name : String} :
    (side.any fun t => t.name == name) = true ↔ name ∈ side.map ValueSpec.name := by
  simp only [List.any_eq_true, beq_iff_eq, List.mem_map]

theorem addNew_cons (side : List ValueSpec) (spec : ValueSpec) (rest : List ValueSpec) :
    addNew side (spec :: rest) =
      addNew (if side.any fun t => t.name == spec.name then side else side ++ [spec]) rest := rfl

/-- Appending what is new to distinct names leaves the names distinct. -/
theorem nodup_addNew {side : List ValueSpec} (h : (side.map ValueSpec.name).Nodup)
    (specs : List ValueSpec) : ((addNew side specs).map ValueSpec.name).Nodup := by
  induction specs generalizing side with
  | nil => exact h
  | cons spec rest ih =>
    rw [addNew_cons]
    apply ih
    split
    · exact h
    · next hnew =>
      rw [any_name_iff] at hnew
      rw [List.map_append, List.map_singleton, List.nodup_append]
      refine ⟨h, List.nodup_singleton _, ?_⟩
      intro a ha b hb he
      rw [he, List.mem_singleton.1 hb] at ha
      exact hnew ha

/-- Names stay different when the sides of children are added. -/
theorem nodup_foldl_addNew {side : List ValueSpec} (h : (side.map ValueSpec.name).Nodup)
    (children : List (List ValueSpec)) :
    ((children.foldl addNew side).map ValueSpec.name).Nodup := by
  induction children generalizing side with
  | nil => exact h
  | cons specs rest ih => exact ih (nodup_addNew h specs)

/-- A side that is declared is not derived. -/
theorem deriveSide_of_ne_nil {declared : List ValueSpec} (h : declared ≠ [])
    (children : List (List ValueSpec)) : deriveSide declared children = declared := by
  rw [deriveSide, if_neg]
  simpa using h

/-- A side that is declared or derived lists no name twice. -/
theorem nodup_deriveSide {declared : List ValueSpec} (h : (declared.map ValueSpec.name).Nodup)
    (children : List (List ValueSpec)) :
    ((deriveSide declared children).map ValueSpec.name).Nodup := by
  unfold deriveSide
  split
  · have hnil : (([] : List ValueSpec).map ValueSpec.name).Nodup := List.nodup_nil
    exact nodup_foldl_addNew hnil children
  · exact h

/-- A condition that is put in front repeats no name. -/
theorem nodup_withCondition {input : List ValueSpec} (h : (input.map ValueSpec.name).Nodup)
    (condition : Option String) : ((withCondition condition input).map ValueSpec.name).Nodup := by
  unfold withCondition
  split
  · split
    · exact h
    · next hnew =>
      rw [any_name_iff] at hnew
      exact List.nodup_cons.2 ⟨hnew, h⟩
  · exact h

/-- Of distinct names all are new. -/
theorem addNew_eq_append {side specs : List ValueSpec}
    (h : ((side ++ specs).map ValueSpec.name).Nodup) : addNew side specs = side ++ specs := by
  induction specs generalizing side with
  | nil => exact (List.append_nil side).symm
  | cons spec rest ih =>
    have hnew : ¬ (side.any fun t => t.name == spec.name) = true := by
      rw [any_name_iff]
      intro hmem
      rw [List.map_append, List.nodup_append] at h
      exact h.2.2 _ hmem _ (List.mem_map_of_mem List.mem_cons_self) rfl
    rw [addNew_cons, if_neg hnew, ih (by rwa [List.append_assoc]), List.append_assoc]
    rfl

/-- Declarations of different names are all added, in their order. -/
theorem foldl_addNew_eq_append {side : List ValueSpec} {children : List (List ValueSpec)}
    (h : ((side ++ children.flatten).map ValueSpec.name).Nodup) :
    children.foldl addNew side = side ++ children.flatten := by
  induction children generalizing side with
  | nil => exact (List.append_nil side).symm
  | cons specs rest ih =>
    rw [List.flatten_cons, ← List.append_assoc] at h ⊢
    have hspecs : addNew side specs = side ++ specs := by
      apply addNew_eq_append
      rw [List.map_append] at h
      exact (List.nodup_append.1 h).1
    rw [List.foldl_cons, hspecs, ih h]

/-- A side that is not declared is what the children declare, if no name is declared twice. -/
theorem deriveSide_nil {children : List (List ValueSpec)}
    (h : (children.flatten.map ValueSpec.name).Nodup) :
    deriveSide [] children = children.flatten :=
  foldl_addNew_eq_append h

/-- After what is new has been appended, a name stands for what it stood for before, or else for its
first declaration among what has been appended. -/
theorem find?_addNew (side specs : List ValueSpec) (name : String) :
    ((addNew side specs).find? fun t => t.name == name) =
      (side ++ specs).find? fun t => t.name == name := by
  induction specs generalizing side with
  | nil => rw [List.append_nil]; rfl
  | cons spec rest ih =>
    rw [addNew_cons, ih, List.find?_append, List.find?_append]
    split
    · next hold =>
      -- A declaration that is passed over would not have been found either.
      rw [List.find?_cons]
      split
      · next hname =>
        rw [beq_iff_eq.1 hname, List.any_eq_true, ← List.find?_isSome] at hold
        obtain ⟨t, ht⟩ := Option.isSome_iff_exists.1 hold
        rw [ht, Option.some_or, Option.some_or]
      · rfl
    · rw [List.find?_append, Option.or_assoc, ← List.find?_append]
      rfl

/-- In a derived side, a name stands for its first declaration among the children. -/
theorem find?_deriveSide_nil (children : List (List ValueSpec)) (name : String) :
    ((deriveSide [] children).find? fun t => t.name == name) =
      children.flatten.find? fun t => t.name == name := by
  have hfold : ∀ side : List ValueSpec, ((children.foldl addNew side).find? fun t => t.name == name)
      = (side ++ children.flatten).find? fun t => t.name == name := by
    induction children with
    | nil =>
      intro side
      rw [List.flatten_nil, List.append_nil]
      rfl
    | cons specs rest ih =>
      intro side
      rw [List.foldl_cons, ih, List.find?_append, find?_addNew, ← List.find?_append,
        List.append_assoc, List.flatten_cons]
  exact hfold []

theorem mem_of_mem_addNew {side specs : List ValueSpec} {t : ValueSpec}
    (h : t ∈ addNew side specs) : t ∈ side ∨ t ∈ specs := by
  induction specs generalizing side with
  | nil => exact .inl h
  | cons spec rest ih =>
    rw [addNew_cons] at h
    rcases ih h with h | h
    · split at h
      · exact .inl h
      · rw [List.mem_append, List.mem_singleton] at h
        exact h.imp_right fun h => List.mem_cons.2 (.inl h)
    · exact .inr (List.mem_cons_of_mem spec h)

/-- A derived side has only what a child declares. -/
theorem mem_of_mem_deriveSide_nil {children : List (List ValueSpec)} {t : ValueSpec}
    (h : t ∈ deriveSide [] children) : ∃ side ∈ children, t ∈ side := by
  have hfold : ∀ side : List ValueSpec, t ∈ children.foldl addNew side →
      t ∈ side ∨ ∃ side ∈ children, t ∈ side := by
    clear h
    induction children with
    | nil => exact fun side h => .inl h
    | cons specs rest ih =>
      intro side h
      rcases ih _ h with h | ⟨later, hlater, h⟩
      · exact (mem_of_mem_addNew h).imp_right fun h => ⟨specs, List.mem_cons_self, h⟩
      · exact .inr ⟨later, List.mem_cons_of_mem specs hlater, h⟩
  exact (hfold [] h).resolve_left List.not_mem_nil

/-- A condition that is put in front stands for no name that is declared. -/
theorem find?_withCondition {condition : Option String} {input : List ValueSpec} {name : String}
    {spec : ValueSpec} (h : (input.find? fun t => t.name == name) = some spec) :
    ((withCondition condition input).find? fun t => t.name == name) = some spec := by
  cases condition with
  | none => exact h
  | some source =>
    unfold withCondition
    simp only
    split
    · exact h
    · next hnew =>
      have hne : (ValueSpec.required source .any).name ≠ name := by
        rintro rfl
        have hfound := List.find?_isSome.1 (Option.isSome_iff_exists.2 ⟨spec, h⟩)
        exact hnew (List.any_eq_true.2 hfound)
      rw [List.find?_cons_of_neg (by simpa using hne)]
      exact h

end Signature

end WorkflowEngine
