import WorkflowEngine.Compilation
import WorkflowEngine.Proofs.References
import WorkflowEngine.Proofs.Signatures

/-!
# Compiling in two ways at once

Compiling a specification is one program for every way of following references. Whatever two such
ways have in common, step by step, the two compilations have in common. The relation is indexed by
the references asked for: a specification asks for exactly its targets, in their order, unless it
fails before the last of them.
-/

namespace WorkflowEngine

namespace ModuleSpec

variable {m n : Type → Type} [Monad m] [Monad n] [MonadExcept CompileFailure m]
  [MonadExcept CompileFailure n]

/-- A relation between programs that asking for nothing, failing in a check, and going on with a
result respect. The list holds the references asked for. -/
structure Respected (R : (α : Type) → List ModuleId → m α → n α → Prop) : Prop where
  /-- A result without any step is related to itself. -/
  pure {α : Type} (a : α) : R _ [] (pure a : m α) (pure a)
  /-- A failed check is related to itself. -/
  fail {α : Type} (fault : SpecFault) : R α [] (fail (.validation fault))
    (fail (.validation fault))
  /-- Going on in related ways with the results of related programs is related. -/
  bind {α β : Type} {asked later : List ModuleId} {x : m α} {y : n α} {f : α → m β} {g : α → n β}
    (hxy : R _ asked x y) (hfg : ∀ a, R _ later (f a) (g a)) :
    R _ (asked ++ later) (x >>= f) (y >>= g)

namespace Respected

variable {R : (α : Type) → List ModuleId → m α → n α → Prop} (h : Respected R)
include h

/-- Going on without any more requests is related if every result is. -/
theorem bind_nil {α β : Type} {later : List ModuleId} {x : m α} {y : n α} {f : α → m β}
    {g : α → n β} (hxy : R _ [] x y) (hfg : ∀ a, R _ later (f a) (g a)) :
    R _ later (x >>= f) (y >>= g) := h.bind hxy hfg

theorem bind_pure {α β : Type} {asked : List ModuleId} {x : m α} {y : n α} (hxy : R _ asked x y)
    (f : α → β) : R _ asked (x >>= fun a => Pure.pure (f a)) (y >>= fun a => Pure.pure (f a)) := by
  simpa only [List.append_nil] using h.bind hxy fun a => h.pure (f a)

theorem ofExcept {α : Type} {x : Except Error α}
    (hx : ∀ e, x = .error e → ∃ fault, e = .validation fault) :
    R _ [] (ModuleSpec.ofExcept x) (ModuleSpec.ofExcept x) := by
  cases x with
  | ok a => exact h.pure a
  | error e =>
    obtain ⟨fault, rfl⟩ := hx e rfl
    exact h.fail fault

/-- A check before related programs is related. -/
theorem demand {α : Type} {p : Prop} [Decidable p] {fault : SpecFault} {asked : List ModuleId}
    {x : m α} {y : n α} (hxy : R _ asked x y) :
    R _ asked (if p then ModuleSpec.fail (.validation fault) >>= fun _ : PUnit => x else x)
      (if p then ModuleSpec.fail (.validation fault) >>= fun _ : PUnit => y else y) := by
  split
  · exact h.bind_nil (h.fail fault) fun _ => hxy
  · exact hxy

variable {β : Type} {asked : β → List ModuleId} {x : β → m Module} {y : β → n Module}

theorem mapM [LawfulMonad m] [LawfulMonad n] {γ δ : Type} {items : List γ} {of : γ → List ModuleId}
    {f : γ → m δ} {g : γ → n δ} (hfg : ∀ c ∈ items, R _ (of c) (f c) (g c)) :
    R _ (items.flatMap of) (items.mapM f) (items.mapM g) := by
  induction items with
  | nil => exact h.pure []
  | cons c rest ih =>
    rw [List.mapM_cons, List.mapM_cons, List.flatMap_cons]
    refine h.bind (hfg c List.mem_cons_self) fun d => ?_
    exact h.bind_pure (ih fun c' hc' => hfg c' (List.mem_cons_of_mem c hc')) (d :: ·)

theorem compileCases (id : ModuleId) (seen : List Payload) {cases : List (Case β)}
    (hc : ∀ c ∈ cases, R _ (asked c.child) (x c.child) (y c.child)) :
    R _ (cases.flatMap fun c => asked c.child)
      (ModuleSpec.compileCases id seen (cases.map fun c => ⟨c.key, x c.child⟩))
      (ModuleSpec.compileCases id seen (cases.map fun c => ⟨c.key, y c.child⟩)) := by
  induction cases generalizing seen with
  | nil => exact h.pure []
  | cons c rest ih =>
    simp only [List.map_cons, List.flatMap_cons, ModuleSpec.compileCases]
    refine h.demand (h.bind (hc c List.mem_cons_self) fun child => ?_)
    exact h.bind_pure (ih _ fun c' hc' => hc c' (List.mem_cons_of_mem c hc')) (⟨c.key, child⟩ :: ·)

theorem mapM_option [LawfulMonad m] [LawfulMonad n] {fallback : Option β}
    (hc : ∀ c ∈ fallback, R _ (asked c) (x c) (y c)) :
    R _ (fallback.toList.flatMap asked) ((fallback.map x).mapM fun child => child)
      ((fallback.map y).mapM fun child => child) := by
  cases fallback with
  | none => exact h.pure none
  | some c =>
    simp only [Option.map_some, Option.mapM_some, Option.toList_some, List.flatMap_cons,
      List.flatMap_nil, List.append_nil, map_eq_pure_bind]
    exact h.bind_pure (hc c rfl) some

/-- A leaf asks for nothing. -/
theorem compileLeaf (id : ModuleId) (signature : Signature) (kind : Kind Module Module) :
    R _ [] (ModuleSpec.compileLeaf id signature kind)
      (ModuleSpec.compileLeaf id signature kind) := by
  refine h.bind_pure (h.ofExcept fun e he => ?_) fun _ => Module.mk id signature kind
  unfold Signature.singleOutput at he
  split at he <;> cases he
  exact ⟨_, rfl⟩

variable [LawfulMonad m] [LawfulMonad n]
  {reference : ModuleId → m Module} {reference' : ModuleId → n Module}

/-- A module whose children are compiled in related ways. -/
theorem compileKind (id : ModuleId) (signature : Signature) {kind : Kind ModuleId β}
    (ht : ∀ t ∈ kind.target?, R _ [t] (reference t) (reference' t))
    (hc : ∀ c ∈ kind.children, R _ (asked c) (x c) (y c)) :
    R _ (kind.target?.toList ++ kind.children.flatMap asked)
      (ModuleSpec.compileKind reference id signature (kind.map (fun r => r) x))
      (ModuleSpec.compileKind reference' id signature (kind.map (fun r => r) y)) := by
  cases kind with
  | sequential steps =>
    simp only [Kind.map, ModuleSpec.compileKind, Kind.target?, Kind.children, List.flatMap_map,
      List.mapM_map, Function.comp_def, Option.toList_none, List.nil_append]
    refine h.bind_pure (h.mapM fun s hs => ?_) _
    exact h.bind_pure (hc s.child (List.mem_map_of_mem hs)) _
  | parallel branches =>
    simp only [Kind.map, ModuleSpec.compileKind, Kind.target?, Kind.children, List.mapM_map,
      Function.comp_def, Option.toList_none, List.nil_append]
    exact h.bind_pure (h.mapM hc) _
  | switch condition cases fallback =>
    simp only [Kind.map, ModuleSpec.compileKind, Kind.target?, Kind.children, List.flatMap_append,
      List.flatMap_map, Option.toList_none, List.nil_append]
    refine h.bind (h.compileCases id [] fun c hcase => ?_) fun cases =>
      h.bind_pure (h.mapM_option fun c hfallback => ?_) _
    · exact hc c.child (List.mem_append_left _ (List.mem_map_of_mem hcase))
    · exact hc c (List.mem_append_right _ (Option.mem_toList.2 hfallback))
  | subWorkflow target => exact h.bind_pure (ht target rfl) _
  | llm template => exact h.compileLeaf id signature _
  | tool name => exact h.demand (h.compileLeaf id signature _)
  | http => exact h.pure _
  | jsonExtract path => exact h.compileLeaf id _ _

/-- A specification whose references are followed in related ways is compiled in related ways, and
asks for its targets. -/
theorem compileWith {reference : ModuleId → m Module} {reference' : ModuleId → n Module}
    {s : ModuleSpec} (ht : ∀ t ∈ s.targets, R _ [t] (reference t) (reference' t)) :
    R _ s.targets (s.compileWith reference) (s.compileWith reference') := by
  unfold ModuleSpec.compileWith
  induction s using ModuleSpec.induct with
  | step id signature kind ih =>
    rw [targets_mk] at ht ⊢
    rw [fold_mk, fold_mk]
    refine h.bind_nil (h.ofExcept fun e => Signature.exists_fault_of_check) fun _ => ?_
    refine h.compileKind id signature (fun t htarget => ?_) fun c hc => ?_
    · exact ht t (List.mem_append_left _ (Option.mem_toList.2 htarget))
    · exact ih c hc fun t htc => ht t (List.mem_append_right _ (List.mem_flatMap.2 ⟨c, hc, htc⟩))

end Respected

/-- What holds of steps one by one and respects them holds of compiling. -/
theorem Respected.compileWith_self [LawfulMonad m] {P : (α : Type) → List ModuleId → m α → Prop}
    (h : Respected fun α asked (x _ : m α) => P α asked x) {reference : ModuleId → m Module}
    {s : ModuleSpec} (ht : ∀ t ∈ s.targets, P _ [t] (reference t)) :
    P _ s.targets (s.compileWith reference) :=
  @compileWith m m _ _ _ _ _ h _ _ reference reference s ht

end ModuleSpec

end WorkflowEngine
