import WorkflowEngine.Proofs.Compilation.All
import WorkflowEngine.Proofs.Validation.Registries

/-!
# Compiling what is valid

Validating and compiling check nearly the same. What a valid registry can still lack is the one
output that an extraction needs as soon as it declares anything: validation demands it of text
generations and of tool calls only. Nothing else keeps a valid registry from compiling.
-/

namespace WorkflowEngine

namespace ModuleSpec

/-- If the module is an extraction, it declares nothing at all or exactly one output. -/
def ExtractsOne (s : ModuleSpec) : Prop :=
  ∀ path, s.kind = .jsonExtract path →
    (s.signature.input = [] ∧ s.signature.output = []) ∨ s.signature.output.length = 1

/-- A valid module is declared as compiling demands unless it is an extraction that is not. -/
theorem Valid.compilable_iff {s : ModuleSpec} (h : s.Valid) : s.Compilable ↔ s.ExtractsOne := by
  obtain ⟨-, hnames, hkind⟩ := h
  obtain ⟨id, signature, kind⟩ := s
  have hkind' : kind.Compilable signature ↔ ExtractsOne (.mk id signature kind) := by
    cases kind with
    | switch condition cases fallback => exact iff_of_true hkind.2 fun _ h => nomatch h
    | llm template => exact iff_of_true hkind fun _ h => nomatch h
    | tool name => exact iff_of_true hkind fun _ h => nomatch h
    | jsonExtract path => exact ⟨fun h _ _ => h, fun h => h path rfl⟩
    | _ => exact iff_of_true trivial fun _ h => nomatch h
  constructor
  · intro h
    exact hkind'.1 h.kind
  · intro h
    exact ⟨hnames, hkind'.2 h⟩

end ModuleSpec

namespace Registry

variable {r : Registry}

/-- In a valid registry everything that a registered name reaches is registered. -/
theorem Valid.exists_of_reaches (h : r.Valid) {id x : ModuleId} (hid : id ∈ r.keys)
    (hx : r.resolver.Reaches id x) : ∃ s, r.find? x = some s := by
  have hclosed : ∀ a b, (∃ s, r.find? a = some s) → r.resolver.Refers a b →
      ∃ s, r.find? b = some s := by
    rintro a b _ ⟨s, hs, hb⟩
    rw [get?_resolver] at hs
    exact h.registered s (Ascending.find?_eq_some_iff.1 hs).1 b hb
  exact Resolver.mem_of_reaches hclosed (Ascending.mem_keys_iff.1 hid) hx

/-- In a valid registry a name is compilable exactly when all extractions inside the specifications
that it reaches declare nothing or one output. -/
theorem Valid.compilable_iff (h : r.Valid) {id : ModuleId} (hid : id ∈ r.keys) :
    r.resolver.Compilable id ↔ ∀ x s, r.resolver.Reaches id x → r.find? x = some s →
      ∀ n, s.Contains n → n.ExtractsOne := by
  have hnode : ∀ {x s}, r.find? x = some s → ∀ n, s.Contains n → n.Valid := by
    intro x s hs
    exact h.nodes s (Ascending.find?_eq_some_iff.1 hs).1
  constructor
  · intro hcompilable x s hx hs n hn
    rw [← get?_resolver] at hs
    have hdeclared := hcompilable.declared x s hx hs n hn
    rw [get?_resolver] at hs
    exact (hnode hs n hn).compilable_iff.1 hdeclared
  · intro hextract
    refine ⟨?_, fun x _ => h.acyclic x, ?_⟩
    · intro x hx
      rw [get?_resolver]
      exact h.exists_of_reaches hid hx
    · intro x s hx hs n hn
      rw [get?_resolver] at hs
      exact (hnode hs n hn).compilable_iff.2 (hextract x s hx hs n hn)

/-- In a valid registry a name fails to compile exactly when it reaches a specification with an
extraction that declares something but not one output. -/
theorem Valid.exists_failure_iff (h : r.Valid) {id : ModuleId} (hid : id ∈ r.keys) :
    (∃ e, (id, e) ∈ r.compileAll.failures) ↔
      ∃ x s n, r.resolver.Reaches id x ∧ r.find? x = some s ∧ s.Contains n ∧ ¬ n.ExtractsOne := by
  rw [Registry.exists_failure_iff hid, h.compilable_iff hid]
  simp only [not_forall, exists_prop, exists_and_left]

/-- In a valid registry every failure to compile is a fault of a specification. -/
theorem Valid.exists_fault (h : r.Valid) {id : ModuleId} {e : CompileFailure}
    (he : (id, e) ∈ r.compileAll.failures) : ∃ fault, e = .error (.validation fault) := by
  obtain ⟨hid, hmain⟩ := mem_failures_compileAll_iff.1 he
  cases Resolver.explains_of_compileMain_eq_error r.ownNames_resolver hmain with
  | fault fault => exact ⟨fault, rfl⟩
  | unresolved hreach hs =>
    obtain ⟨s, hs'⟩ := h.exists_of_reaches hid hreach
    rw [get?_resolver] at hs
    cases hs.symm.trans hs'
  | circle hcircle => exact absurd hcircle.onCircle (h.acyclic _)

/-- What compiling all of a registry that passes validation amounts to:

1. nothing fails exactly when every extraction declares nothing or one output;
2. a name fails exactly when it reaches a specification with an extraction that does not;
3. every failure is a fault of a specification. -/
theorem compileAll_of_validate_eq_ok (r : Registry) (h : r.validate = .ok ()) :
    (r.compileAll.failures = [] ↔ ∀ s ∈ r.toList, ∀ n, s.Contains n → n.ExtractsOne) ∧
    (∀ id ∈ r.keys, (∃ e, (id, e) ∈ r.compileAll.failures) ↔
      ∃ x s n, r.resolver.Reaches id x ∧ r.find? x = some s ∧ s.Contains n ∧ ¬ n.ExtractsOne) ∧
    ∀ id e, (id, e) ∈ r.compileAll.failures → ∃ fault, e = .error (.validation fault) := by
  have hvalid : r.Valid := (validateIn_eq_ok_iff (.refl _)).1 h
  refine ⟨⟨?_, ?_⟩, fun id hid => hvalid.exists_failure_iff hid,
    fun id e he => hvalid.exists_fault he⟩
  · intro hnil s hs n hn
    by_contra hbad
    have hid : s.id ∈ r.keys := List.mem_map_of_mem hs
    have hfind : r.find? s.id = some s := Ascending.find?_eq_some_iff.2 ⟨hs, rfl⟩
    obtain ⟨e, he⟩ := (hvalid.exists_failure_iff hid).2 ⟨s.id, s, n, .refl, hfind, hn, hbad⟩
    rw [hnil] at he
    exact List.not_mem_nil he
  · intro hextract
    rw [List.eq_nil_iff_forall_not_mem]
    rintro ⟨id, e⟩ he
    have hid := (mem_failures_compileAll_iff.1 he).1
    obtain ⟨x, s, n, _, hfind, hn, hbad⟩ := (hvalid.exists_failure_iff hid).1 ⟨e, he⟩
    have hs : s ∈ r.toList := (Ascending.find?_eq_some_iff.1 hfind).1
    exact hbad (hextract s hs n hn)

/-- A registry with one specification, an extraction that declares two outputs. -/
def twoOutputs : Registry :=
  ⟨[.mk "pick" (.ofSides [.required "json" .string]
    [.required "first" .string, .required "last" .string]) (.jsonExtract "user.name")],
    List.pairwise_singleton _ _⟩

/-- The extraction passes validation and is what keeps its registry from compiling. -/
theorem failures_twoOutputs_iff :
    twoOutputs.validate = .ok () ∧ (twoOutputs.compileAll.failures = [] ↔
      ∀ s ∈ twoOutputs.toList, ∀ n, s.Contains n → n.ExtractsOne) :=
  ⟨rfl, (compileAll_of_validate_eq_ok twoOutputs rfl).1⟩

/-- A registry may pass validation and not compile. -/
theorem failures_twoOutputs :
    twoOutputs.validate = .ok () ∧
      twoOutputs.compileAll.failures = [("pick", .error (.validation (.outputCount "pick" 2)))] :=
  ⟨rfl, by decide +kernel⟩

end Registry

end WorkflowEngine
