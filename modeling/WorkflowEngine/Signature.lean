import WorkflowEngine.Value

/-!
# Signatures

A signature declares what a module takes, what it gives, and on which workflows it depends. The
names on each side have to be distinct and not empty.
-/

namespace WorkflowEngine

/-- The name of a module, unique within one loaded set of workflows. -/
abbrev ModuleId := String

/-- What a module takes and gives. -/
structure Signature where
  /-- Declared inputs. -/
  input : List ValueSpec
  /-- Declared outputs. -/
  output : List ValueSpec
  /-- Workflows that the module depends on. -/
  dependencies : TextSet
  deriving DecidableEq

namespace Signature

/-- A signature without dependencies. -/
def ofSides (input output : List ValueSpec) : Signature := ⟨input, output, .empty⟩

/-- The signature that declares nothing. -/
def empty : Signature := ofSides [] []

instance : Inhabited Signature := ⟨empty⟩

/-- Adds a dependency. -/
def withDependency (s : Signature) (id : ModuleId) : Signature :=
  { s with dependencies := s.dependencies.insert id }

/-- Whether neither side declares anything. -/
def isEmpty (s : Signature) : Bool := s.input.isEmpty && s.output.isEmpty

/-- The declared input names. -/
def inputNames (s : Signature) : List String := s.input.map ValueSpec.name

/-- The declared output names. -/
def outputNames (s : Signature) : List String := s.output.map ValueSpec.name

/-- Whether an output of a name is declared. -/
def declaresOutput (s : Signature) (name : String) : Bool :=
  s.output.any fun spec => spec.name == name

/-- The output of a leaf that has to declare exactly one. -/
def singleOutput (id : ModuleId) (s : Signature) : Except Error ValueSpec :=
  match s.output with
  | [output] => .ok output
  | outputs => .error (.validation (.outputCount id outputs.length))

/-- Checks one side, given the names that stand before. -/
def checkSide (id : ModuleId) (side : Side) (seen : List String) :
    List ValueSpec → Except Error Unit
  | [] => .ok ()
  | spec :: rest =>
    if spec.name = "" then .error (.validation (.emptyName id side))
    else if spec.name ∈ seen then .error (.validation (.repeatedName id side spec.name))
    else checkSide id side (spec.name :: seen) rest

/-- Checks that the names on each side are distinct and not empty. -/
def check (id : ModuleId) (s : Signature) : Except Error Unit := do
  checkSide id .input [] s.input
  checkSide id .output [] s.output

/-- A side passes exactly when its names are not empty, distinct, and none of them stands before. -/
theorem checkSide_eq_ok_iff (id : ModuleId) (side : Side) (seen : List String)
    (specs : List ValueSpec) :
    checkSide id side seen specs = .ok () ↔
      (∀ spec ∈ specs, spec.name ≠ "" ∧ spec.name ∉ seen) ∧ (specs.map ValueSpec.name).Nodup := by
  induction specs generalizing seen with
  | nil => simp [checkSide]
  | cons spec rest ih =>
    unfold checkSide
    split
    · next h => simp [h]
    · split
      · next h => simp [h]
      · next h₁ h₂ =>
        rw [ih]
        constructor
        · rintro ⟨h, hn⟩
          refine ⟨?_, ?_⟩
          · intro s hs
            rcases List.mem_cons.1 hs with rfl | hs
            · exact ⟨h₁, h₂⟩
            · exact ⟨(h s hs).1, fun hm => (h s hs).2 (List.mem_cons_of_mem _ hm)⟩
          · rw [List.map_cons, List.nodup_cons]
            refine ⟨fun hm => ?_, hn⟩
            obtain ⟨s, hs, he⟩ := List.mem_map.1 hm
            exact (h s hs).2 (he ▸ List.mem_cons_self)
        · rintro ⟨h, hn⟩
          rw [List.map_cons, List.nodup_cons] at hn
          refine ⟨fun s hs => ⟨(h s (List.mem_cons_of_mem _ hs)).1, fun hm => ?_⟩, hn.2⟩
          rcases List.mem_cons.1 hm with he | hm
          · exact hn.1 (he ▸ List.mem_map_of_mem hs)
          · exact (h s (List.mem_cons_of_mem _ hs)).2 hm

/-- A signature passes exactly when the names on each side are distinct and not empty. -/
theorem check_eq_ok_iff (id : ModuleId) (s : Signature) :
    s.check id = .ok () ↔
      ((∀ spec ∈ s.input, spec.name ≠ "") ∧ s.inputNames.Nodup) ∧
        (∀ spec ∈ s.output, spec.name ≠ "") ∧ s.outputNames.Nodup := by
  have hin := checkSide_eq_ok_iff id .input [] s.input
  have hout := checkSide_eq_ok_iff id .output [] s.output
  simp only [List.not_mem_nil, not_false_eq_true, and_true] at hin hout
  unfold check inputNames outputNames
  cases h : checkSide id .input [] s.input with
  | error e =>
    rw [h] at hin
    simp only [reduceCtorEq, false_iff] at hin
    simp only [bind, Except.bind, reduceCtorEq, false_iff]
    exact fun hh => hin hh.1
  | ok u =>
    rw [h] at hin
    simp only [true_iff] at hin
    simp only [bind, Except.bind, hout]
    exact ⟨fun hh => ⟨hin, hh⟩, fun hh => hh.2⟩

/-- What an HTTP leaf takes and gives unless it declares something. -/
def http : Signature :=
  ofSides [.required "url" .string, ⟨"method", .string, true⟩]
    [.required "status" .integer, .required "body" .string]

/-- What an extraction takes and gives unless it declares something. -/
def jsonExtract : Signature := ofSides [.required "json" .string] [.required "value" .string]

end Signature

end WorkflowEngine
