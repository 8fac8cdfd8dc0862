import WorkflowEngine.Signature

/-!
# What signatures are checked for

The names on each side of a signature are checked by compiling and by validating alike, and so is
the number of outputs of a leaf that has to have one.
-/

namespace WorkflowEngine

namespace Signature

/-- A side that is not proper is reported as a fault of the specification. -/
theorem exists_fault_of_checkSide {id : ModuleId} {side : Side} {seen : List String}
    {specs : List ValueSpec} {e : Error} (h : checkSide id side seen specs = .error e) :
    ∃ fault, e = .validation fault := by
  induction specs generalizing seen with
  | nil => cases h
  | cons spec rest ih =>
    unfold checkSide at h
    split at h
    · cases h
      exact ⟨_, rfl⟩
    · split at h
      · cases h
        exact ⟨_, rfl⟩
      · exact ih h

/-- A signature fails its check as a validation does. -/
theorem exists_fault_of_check {id : ModuleId} {s : Signature} {e : Error}
    (h : s.check id = .error e) : ∃ fault, e = .validation fault := by
  unfold check at h
  cases hin : checkSide id .input [] s.input with
  | error e' =>
    rw [hin] at h
    cases h
    exact exists_fault_of_checkSide hin
  | ok u =>
    rw [hin] at h
    exact exists_fault_of_checkSide h

/-- The names on both sides of a signature are distinct and not empty. -/
structure ProperNames (s : Signature) : Prop where
  /-- No input is without a name. -/
  input_ne : ∀ spec ∈ s.input, spec.name ≠ ""
  /-- No two inputs share a name. -/
  input_nodup : s.inputNames.Nodup
  /-- No output is without a name. -/
  output_ne : ∀ spec ∈ s.output, spec.name ≠ ""
  /-- No two outputs share a name. -/
  output_nodup : s.outputNames.Nodup

/-- A signature passes its check exactly when its names are proper. -/
theorem check_eq_ok_iff_properNames {id : ModuleId} {s : Signature} :
    s.check id = .ok () ↔ s.ProperNames := by
  rw [check_eq_ok_iff]
  exact ⟨fun ⟨⟨hi, hin⟩, ho, hon⟩ => ⟨hi, hin, ho, hon⟩, fun h =>
    ⟨⟨h.input_ne, h.input_nodup⟩, h.output_ne, h.output_nodup⟩⟩

/-- A leaf has the one output that it needs exactly when it declares one. -/
theorem exists_singleOutput_iff (id : ModuleId) {s : Signature} :
    (∃ spec, s.singleOutput id = .ok spec) ↔ s.output.length = 1 := by
  rw [List.length_eq_one_iff]
  unfold singleOutput
  split
  · next spec h => exact iff_of_true ⟨spec, rfl⟩ ⟨spec, h⟩
  · next h => exact iff_of_false (fun ⟨_, hs⟩ => nomatch hs) fun ⟨spec, hs⟩ => h spec hs

end Signature

end WorkflowEngine
