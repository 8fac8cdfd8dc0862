import WorkflowEngine.Validation
import WorkflowEngine.Proofs.References
import WorkflowEngine.Proofs.Signatures

/-!
# When a specification is valid

A specification is valid exactly when each module inside it fulfils, by itself, what validation
demands of its kind.
-/

namespace WorkflowEngine

/-- What validation demands of a kind of module under a signature: one output of a text generation
and of a tool call, texts that are not empty, and distinct keys of a switch. -/
def Kind.Valid {α : Type} (signature : Signature) : Kind ModuleId α → Prop
  | .switch condition cases _ => condition ≠ "" ∧ (cases.map Case.key).Nodup
  | .subWorkflow target => target ≠ ""
  | .llm _ => signature.output.length = 1
  | .tool name => name ≠ "" ∧ signature.output.length = 1
  | .jsonExtract path => path ≠ ""
  | _ => True

/-- A check passes together with those after it when each of them passes. -/
theorem check_then_eq_ok_iff {x y : Except Error Unit} :
    (x >>= fun _ => y) = .ok () ↔ x = .ok () ∧ y = .ok () := by
  cases x with
  | error e => exact iff_of_false (fun h => nomatch h) fun h => nomatch h.1
  | ok u => exact (and_iff_right rfl).symm

namespace Kind

/-- A demand is met exactly if what is demanded is present. -/
theorem demand_eq_ok_iff {present : Bool} {fault : SpecFault} :
    demand present fault = .ok () ↔ present = true := by
  unfold demand
  split
  · next h => exact iff_of_true rfl h
  · next h => exact iff_of_false (fun h' => nomatch h') h

/-- Keys pass exactly if they are new and different. -/
theorem checkKeys_eq_ok_iff {α : Type} {id : ModuleId} {seen : List Payload}
    {cases : List (Case α)} :
    checkKeys id seen cases = .ok () ↔
      (∀ c ∈ cases, c.key ∉ seen) ∧ (cases.map Case.key).Nodup := by
  induction cases generalizing seen with
  | nil => simp [checkKeys]
  | cons c rest ih =>
    unfold checkKeys
    split
    · next h => exact iff_of_false (fun h' => nomatch h') fun h' => h'.1 c List.mem_cons_self h
    · next h =>
      rw [ih, List.forall_mem_cons, List.map_cons, List.nodup_cons]
      simp only [List.mem_cons, not_or, List.mem_map, not_exists, not_and, forall_and]
      constructor
      · rintro ⟨⟨hne, hseen⟩, hnodup⟩
        exact ⟨⟨h, hseen⟩, hne, hnodup⟩
      · rintro ⟨⟨_, hseen⟩, hne, hnodup⟩
        exact ⟨⟨hne, hseen⟩, hnodup⟩

/-- A module with one output passes exactly if the rest does. -/
theorem checkOutput_eq_ok_iff {id : ModuleId} {signature : Signature} {y : Except Error Unit} :
    (signature.singleOutput id *> y) = .ok () ↔ signature.output.length = 1 ∧ y = .ok () := by
  rw [← Signature.exists_singleOutput_iff id]
  cases signature.singleOutput id with
  | error e => exact iff_of_false (fun h => nomatch h) fun ⟨⟨_, h⟩, _⟩ => nomatch h
  | ok spec => exact (and_iff_right ⟨spec, rfl⟩).symm

/-- A module passes the checks of its kind and of its reference exactly when it is valid. -/
theorem check_eq_ok_iff_valid {α : Type} {id : ModuleId} {signature : Signature}
    {kind : Kind ModuleId α} :
    (kind.check id signature = .ok () ∧ kind.checkTarget id = .ok ()) ↔ kind.Valid signature := by
  cases kind with
  | switch condition cases fallback =>
    simp [check, checkTarget, Valid, check_then_eq_ok_iff, demand_eq_ok_iff, checkKeys_eq_ok_iff]
  | subWorkflow target => simp [check, checkTarget, Valid, demand_eq_ok_iff]
  | llm template => simp [check, checkTarget, Valid, checkOutput_eq_ok_iff]
  | tool name =>
    simp [check, checkTarget, Valid, checkOutput_eq_ok_iff, demand_eq_ok_iff, and_comm]
  | jsonExtract path => simp [check, checkTarget, Valid, demand_eq_ok_iff]
  | _ => simp [check, checkTarget, Valid]

theorem valid_map {α β : Type} {signature : Signature} (g : α → β) (k : Kind ModuleId α) :
    (k.map (fun t => t) g).Valid signature ↔ k.Valid signature := by
  cases k <;> simp [map, Valid, Function.comp_def]

end Kind

namespace ModuleSpec

/-- What validation demands of a module apart from its children. -/
structure Valid (s : ModuleSpec) : Prop where
  /-- It has a name. -/
  named : s.id ≠ ""
  /-- The names of its signature are proper. -/
  names : s.signature.ProperNames
  /-- It is declared as its kind demands. -/
  kind : s.kind.Valid s.signature

/-- A specification passes validation exactly when everything it contains is valid. -/
theorem validate_eq_ok_iff {s : ModuleSpec} :
    s.validate = .ok () ↔ ∀ n, s.Contains n → n.Valid := by
  unfold validate
  induction s using induct with
  | step id signature kind ih =>
    have hchildren : (∀ c ∈ (kind.map (fun t => t) (fold checkNode)).children, c = .ok ()) ↔
        ∀ c ∈ kind.children, ∀ n, c.Contains n → n.Valid := by
      rw [Kind.children_map, List.forall_mem_map]
      exact forall₂_congr ih
    rw [fold_mk, checkNode, forall_contains_iff]
    simp only [check_then_eq_ok_iff, Kind.demand_eq_ok_iff, Signature.check_eq_ok_iff_properNames,
      firstFailure_eq_ok_iff, bne_iff_ne]
    rw [hchildren, ← and_assoc (a := Kind.check _ _ _ = _), Kind.check_eq_ok_iff_valid,
      Kind.valid_map]
    constructor
    · rintro ⟨hnamed, hnames, hkind, hbelow⟩
      exact ⟨⟨hnamed, hnames, hkind⟩, hbelow⟩
    · rintro ⟨hself, hbelow⟩
      exact ⟨hself.named, hself.names, hself.kind, hbelow⟩

end ModuleSpec

end WorkflowEngine
