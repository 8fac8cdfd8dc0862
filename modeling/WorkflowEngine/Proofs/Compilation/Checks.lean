import WorkflowEngine.Proofs.Compilation.Programs
import WorkflowEngine.Proofs.Except

/-!
# When a specification compiles

Each module of a specification is checked by itself: the names of its signature, the keys of a
switch, the outputs of a leaf. A specification compiles exactly when every module that it contains
passes and every reference that it contains compiles.
-/

namespace WorkflowEngine

/-- A computation that ends with a result. -/
def Succeeds {ε α : Type} (x : Except ε α) : Prop := ∃ a, x = .ok a

namespace Succeeds

variable {ε α β : Type}

@[simp] theorem pure (a : α) : Succeeds (Pure.pure a : Except ε α) := ⟨a, rfl⟩

@[simp] theorem error (e : ε) : ¬ Succeeds (.error e : Except ε α) := fun ⟨_, h⟩ => by cases h

/-- Of two computations one after the other both have to succeed. -/
theorem bind_iff {x : Except ε α} {f : α → Except ε β} :
    Succeeds (x >>= f) ↔ ∃ a, x = .ok a ∧ Succeeds (f a) := by
  cases x with
  | error e => exact ⟨fun h => absurd h (error e), fun ⟨_, h, _⟩ => by cases h⟩
  | ok a => exact ⟨fun h => ⟨a, rfl, h⟩, fun ⟨_, h, hf⟩ => by cases h; exact hf⟩

@[simp] theorem map_iff {x : Except ε α} {f : α → β} : Succeeds (f <$> x) ↔ Succeeds x := by
  rw [map_eq_pure_bind, bind_iff]
  exact exists_congr fun a => and_iff_left (pure (f a))

theorem mapM_iff {items : List α} {f : α → Except ε β} :
    Succeeds (items.mapM f) ↔ ∀ a ∈ items, Succeeds (f a) := by
  induction items with
  | nil => simp
  | cons a rest ih =>
    rw [List.mapM_cons, bind_iff, List.forall_mem_cons, ← ih]
    simp only [bind_pure_comp, map_iff, exists_and_right]
    rfl

theorem mapM_option_iff {item : Option α} {f : α → Except ε β} :
    Succeeds (item.mapM f) ↔ ∀ a ∈ item, Succeeds (f a) := by
  cases item with
  | none => simp
  | some a =>
    simp

end Succeeds

/-- What compiling demands of a kind of module under a signature: distinct keys of a switch, one
output of a text generation and of a tool call, which has to name its tool, and one output of an
extraction unless it declares nothing at all. -/
def Kind.Compilable {ρ α : Type} (signature : Signature) : Kind ρ α → Prop
  | .switch _ cases _ => (cases.map Case.key).Nodup
  | .llm _ => signature.output.length = 1
  | .tool name => name ≠ "" ∧ signature.output.length = 1
  | .jsonExtract _ =>
    (signature.input = [] ∧ signature.output = []) ∨ signature.output.length = 1
  | _ => True

/-- What is demanded of a kind has nothing to do with what its children and references are. -/
theorem Kind.compilable_map {ρ σ α β : Type} {signature : Signature} (f : ρ → σ) (g : α → β)
    (k : Kind ρ α) : (k.map f g).Compilable signature ↔ k.Compilable signature := by
  cases k <;> simp [map, Compilable, Function.comp_def]

namespace ModuleSpec

/-- What compiling demands of a module apart from its references and children. -/
structure Compilable (s : ModuleSpec) : Prop where
  /-- The names of its signature are proper. -/
  names : s.signature.ProperNames
  /-- It is declared as its kind demands. -/
  kind : s.kind.Compilable s.signature

/-- The error of a specification is a failure to compile, and nothing else changes. -/
theorem succeeds_ofExcept_iff {α : Type} {x : Except Error α} :
    Succeeds (ofExcept x : Except CompileFailure α) ↔ Succeeds x := by
  cases x with
  | ok a => exact iff_of_true ⟨a, rfl⟩ ⟨a, rfl⟩
  | error e => exact iff_of_false (Succeeds.error (CompileFailure.error e)) (Succeeds.error e)

/-- A check that fails stops what comes after it. -/
theorem succeeds_demand_iff {α : Type} {p : Prop} [Decidable p] {e : Error}
    {x : Except CompileFailure α} :
    Succeeds (if p then fail e >>= fun _ : PUnit => x else x) ↔ ¬ p ∧ Succeeds x := by
  split
  · next h => exact iff_of_false (Succeeds.error (CompileFailure.error e)) fun hx => hx.1 h
  · next h => exact (and_iff_right h).symm

/-- A leaf compiles exactly if it has one output. -/
theorem succeeds_compileLeaf_iff {id : ModuleId} {signature : Signature}
    {kind : Kind Module Module} :
    Succeeds (compileLeaf id signature kind : Except CompileFailure Module) ↔
      signature.output.length = 1 := by
  unfold compileLeaf
  rw [bind_pure_comp, Succeeds.map_iff, succeeds_ofExcept_iff]
  exact Signature.exists_singleOutput_iff id

/-- Cases compile exactly when their keys are new and distinct and their children compile. -/
theorem succeeds_compileCases_iff {id : ModuleId} {seen : List Payload}
    {cases : List (Case (Except CompileFailure Module))} :
    Succeeds (compileCases id seen cases) ↔
      ((∀ c ∈ cases, c.key ∉ seen) ∧ (cases.map Case.key).Nodup) ∧
        ∀ c ∈ cases, Succeeds c.child := by
  induction cases generalizing seen with
  | nil => simp [compileCases]
  | cons c rest ih =>
    rw [compileCases, succeeds_demand_iff, Succeeds.bind_iff]
    simp only [bind_pure_comp, Succeeds.map_iff, exists_and_right, ih, List.forall_mem_cons,
      List.map_cons, List.nodup_cons]
    have hsplit : (∀ c' ∈ rest, c'.key ∉ c.key :: seen) ↔
        c.key ∉ rest.map Case.key ∧ ∀ c' ∈ rest, c'.key ∉ seen := by
      simp only [List.mem_cons, not_or, List.mem_map, not_exists, not_and, forall_and]
    rw [hsplit]
    constructor
    · rintro ⟨hc, hchild, ⟨⟨hne, hseen⟩, hnodup⟩, hrest⟩
      exact ⟨⟨⟨hc, hseen⟩, hne, hnodup⟩, hchild, hrest⟩
    · rintro ⟨⟨⟨hc, hseen⟩, hne, hnodup⟩, hchild, hrest⟩
      exact ⟨hc, hchild, ⟨⟨hne, hseen⟩, hnodup⟩, hrest⟩

/-- A module compiles exactly when it is declared as its kind demands and its reference and its
children compile. -/
theorem succeeds_compileKind_iff {reference : ModuleId → Except CompileFailure Module}
    {id : ModuleId} {signature : Signature} {kind : Kind ModuleId (Except CompileFailure Module)} :
    Succeeds (compileKind reference id signature kind) ↔
      kind.Compilable signature ∧ (∀ t ∈ kind.target?, Succeeds (reference t)) ∧
        ∀ c ∈ kind.children, Succeeds c := by
  cases kind with
  | sequential steps =>
    simp [compileKind, Kind.Compilable, Kind.target?, Kind.children, Succeeds.mapM_iff]
  | parallel branches =>
    simp [compileKind, Kind.Compilable, Kind.target?, Kind.children, Succeeds.mapM_iff]
  | switch condition cases fallback =>
    have hcases : Succeeds (compileCases id [] cases) ↔ _ := succeeds_compileCases_iff
    simp only [List.not_mem_nil, not_false_eq_true, implies_true, true_and] at hcases
    simp only [compileKind, Kind.Compilable, Kind.target?, Kind.children]
    rw [Succeeds.bind_iff]
    simp only [bind_pure_comp, Succeeds.map_iff, exists_and_right, Succeeds.mapM_option_iff]
    rw [show (∃ x, compileCases id [] cases = .ok x) ↔ _ from hcases]
    simp [or_imp, forall_and, and_assoc]
  | subWorkflow target =>
    simp [compileKind, Kind.Compilable, Kind.target?, Kind.children]
  | llm template =>
    simp [compileKind, Kind.Compilable, Kind.target?, Kind.children, succeeds_compileLeaf_iff]
  | tool name =>
    simp [compileKind, Kind.Compilable, Kind.target?, Kind.children, succeeds_compileLeaf_iff,
      succeeds_demand_iff]
  | http => simp [compileKind, Kind.Compilable, Kind.target?, Kind.children]
  | jsonExtract path =>
    rw [compileKind, succeeds_compileLeaf_iff]
    simp only [Kind.Compilable, Kind.target?, Kind.children, Option.not_mem_none, false_implies,
      implies_true, List.not_mem_nil, and_true]
    split
    · next h => exact iff_of_true rfl (.inl (by simpa [Signature.isEmpty] using h))
    · next h => exact (or_iff_right fun hs => h (by simpa [Signature.isEmpty] using hs)).symm

/-- A specification compiles exactly when everything it contains is declared as its kind demands and
all its targets compile. -/
theorem succeeds_compileWith_iff {reference : ModuleId → Except CompileFailure Module}
    {s : ModuleSpec} :
    Succeeds (s.compileWith reference) ↔
      (∀ n, s.Contains n → n.Compilable) ∧ ∀ t ∈ s.targets, Succeeds (reference t) := by
  unfold compileWith
  induction s using induct with
  | step id signature kind ih =>
    have hcheck : Succeeds (ofExcept (signature.check id) : Except CompileFailure Unit) ↔
        signature.ProperNames := by
      rw [succeeds_ofExcept_iff]
      exact ⟨fun ⟨_, h⟩ => Signature.check_eq_ok_iff_properNames.1 h, fun h =>
        ⟨(), Signature.check_eq_ok_iff_properNames.2 h⟩⟩
    have hchildren : (∀ c ∈ kind.children, Succeeds (fold (compileNode reference) c)) ↔
        (∀ c ∈ kind.children, ∀ n, c.Contains n → n.Compilable) ∧
          ∀ c ∈ kind.children, ∀ t ∈ c.targets, Succeeds (reference t) := by
      simp only [← forall_and]
      exact forall₂_congr ih
    rw [fold_mk, compileNode, Succeeds.bind_iff, targets_mk, forall_contains_iff]
    simp only [exists_and_right, succeeds_compileKind_iff, Kind.compilable_map, Kind.target?_map,
      Kind.children_map, Option.map_id', List.forall_mem_map, List.mem_append, Option.mem_toList,
      List.mem_flatMap, or_imp, forall_and]
    rw [hchildren]
    constructor
    · rintro ⟨hnames, hkind, htarget, hbelow, htargets⟩
      exact ⟨⟨⟨hcheck.1 hnames, hkind⟩, hbelow⟩, htarget,
        fun t ⟨c, hc, ht⟩ => htargets c hc t ht⟩
    · rintro ⟨⟨hself, hbelow⟩, htarget, htargets⟩
      exact ⟨hcheck.2 hself.names, hself.kind, htarget, hbelow,
        fun c hc t ht => htargets t ⟨c, hc, ht⟩⟩

/-- A leaf has the name that it is compiled under. -/
theorem id_of_compileLeaf_eq_ok {id : ModuleId} {signature : Signature} {kind : Kind Module Module}
    {m : Module} (h : (compileLeaf id signature kind : Except CompileFailure Module) = .ok m) :
    m.id = id := by
  obtain ⟨_, _, h⟩ := bind_eq_ok_iff.1 h
  cases h
  rfl

/-- The module of a specification has the specification's name. -/
theorem id_of_compileWith_eq_ok {reference : ModuleId → Except CompileFailure Module}
    {s : ModuleSpec} {m : Module} (h : s.compileWith reference = .ok m) : m.id = s.id := by
  obtain ⟨id, signature, kind⟩ := s
  rw [compileWith, fold_mk, compileNode] at h
  obtain ⟨_, _, h⟩ := bind_eq_ok_iff.1 h
  generalize kind.map (fun t => t) (fold (compileNode reference)) = kind at h
  cases kind with
  | sequential _ | parallel _ | subWorkflow _ =>
    obtain ⟨_, _, h⟩ := bind_eq_ok_iff.1 h
    cases h
    rfl
  | switch condition cases fallback =>
    obtain ⟨_, _, h⟩ := bind_eq_ok_iff.1 h
    obtain ⟨_, _, h⟩ := bind_eq_ok_iff.1 h
    cases h
    rfl
  | llm template => exact id_of_compileLeaf_eq_ok h
  | tool name =>
    rw [compileKind] at h
    split at h
    · cases h
    · exact id_of_compileLeaf_eq_ok h
  | http =>
    cases h
    rfl
  | jsonExtract path => exact id_of_compileLeaf_eq_ok h

/-- A result stays the same when every reference that has a result keeps it. -/
theorem compileWith_eq_ok_of_imp {reference reference' : ModuleId → Except CompileFailure Module}
    {s : ModuleSpec}
    (ht : ∀ t ∈ s.targets, ∀ m, reference t = .ok m → reference' t = .ok m)
    {m : Module} (h : s.compileWith reference = .ok m) : s.compileWith reference' = .ok m := by
  have hkeep : Respected fun α _ (x y : Except CompileFailure α) => ∀ a, x = .ok a → y = .ok a := by
    refine ⟨fun a b h => h, fun fault b h => h, fun {α β _ _ x y f g} hxy hfg b hb => ?_⟩
    cases x with
    | error e => cases hb
    | ok a =>
      rw [hxy a rfl]
      exact hfg a b hb
  exact hkeep.compileWith ht m h

/-- A failure is a fault of a specification or that of a target. -/
theorem fault_or_exists_of_compileWith_eq_error
    {reference : ModuleId → Except CompileFailure Module} {s : ModuleSpec} {e : CompileFailure}
    (h : s.compileWith reference = .error e) :
    (∃ fault, e = .error (.validation fault)) ∨ ∃ t ∈ s.targets, reference t = .error e := by
  have horigin : Respected fun α asked (x _ : Except CompileFailure α) => ∀ e, x = .error e →
      (∃ fault, e = .error (.validation fault)) ∨ ∃ t ∈ asked, reference t = .error e := by
    refine ⟨fun a e h => (nomatch h), fun fault e h => ?_,
      fun {α β asked later x y f g} hx hf e h => ?_⟩
    · cases h
      exact .inl ⟨fault, rfl⟩
    · cases x with
      | error e' =>
        cases h
        exact (hx e rfl).imp_right fun ⟨t, ht, he⟩ => ⟨t, List.mem_append_left _ ht, he⟩
      | ok a =>
        exact (hf a e h).imp_right fun ⟨t, ht, he⟩ => ⟨t, List.mem_append_right _ ht, he⟩
  exact horigin.compileWith_self (fun t _ e he => .inr ⟨t, List.mem_singleton_self t, he⟩) e h

end ModuleSpec

end WorkflowEngine
