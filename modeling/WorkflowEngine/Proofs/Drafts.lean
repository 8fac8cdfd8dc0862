import WorkflowEngine.Compilation
import WorkflowEngine.Execution
import WorkflowEngine.Proofs.Validation.Checks
import WorkflowEngine.Spec.Builder

/-!
# Drafts of switches

Whatever an author does to the draft of a switch, its cases have different keys, and a payload
selects among them what has been bound to an equal key last, or else what has been set last to run
when no case fits. So of the checks of a switch only those can fail that look at something else than
its keys.
-/

namespace WorkflowEngine

/-- What an author may do to the draft of a switch. -/
inductive SwitchCall where
  /-- Declares an input. -/
  | input (name : String) (type : ValueType)
  /-- Declares an output. -/
  | output (name : String) (type : ValueType)
  /-- Binds a module to a key. -/
  | addCase (key : Payload) (child : ModuleSpec)
  /-- Sets what runs when no case fits. -/
  | otherwise (child : ModuleSpec)

namespace SwitchCall

/-- The module that a call binds to a key equal to a payload. -/
def case? (p : Payload) : SwitchCall → Option ModuleSpec
  | .addCase key child => if key = p then some child else none
  | .input _ _ | .output _ _ | .otherwise _ => none

/-- The module that a call sets to run when no case fits. -/
def fallback? : SwitchCall → Option ModuleSpec
  | .otherwise child => some child
  | .input _ _ | .output _ _ | .addCase _ _ => none

/-- The module that the last of several calls binds to a key equal to a payload. -/
def lastCase? (calls : List SwitchCall) (p : Payload) : Option ModuleSpec :=
  calls.reverse.findSome? (case? p)

/-- The module that the last of several calls sets to run when no case fits. -/
def lastFallback? (calls : List SwitchCall) : Option ModuleSpec :=
  calls.reverse.findSome? fallback?

end SwitchCall

/-- What a list finds last is found in what comes after the first item, or else in that. -/
theorem findSome?_reverse_cons {α β : Type} (f : α → Option β) (a : α) (rest : List α) :
    (a :: rest).reverse.findSome? f = (rest.reverse.findSome? f).or (f a) := by
  rw [List.reverse_cons, List.findSome?_append, List.findSome?_singleton]

namespace SwitchDraft

/-- What a call makes of a draft. -/
def apply (d : SwitchDraft) : SwitchCall → SwitchDraft
  | .input name type => Draft.input d name type
  | .output name type => Draft.output d name type
  | .addCase key child => d.addCase key child
  | .otherwise child => d.otherwise child

/-- What several calls make of a draft. -/
def after (d : SwitchDraft) (calls : List SwitchCall) : SwitchDraft := calls.foldl apply d

/-- Placing a case adds its key, unless it is there. -/
theorem map_key_place (key : Payload) (child : ModuleSpec) (cases : List (Case ModuleSpec)) :
    (place key child cases).map Case.key =
      if key ∈ cases.map Case.key then cases.map Case.key else cases.map Case.key ++ [key] := by
  induction cases with
  | nil => rfl
  | cons c rest ih =>
    unfold place
    by_cases hkey : c.key = key
    · simp [hkey]
    · simp only [hkey, if_false, List.map_cons, ih, List.mem_cons, Ne.symm hkey, false_or]
      split <;> rfl

/-- Placing a case keeps the keys different. -/
theorem nodup_place {key : Payload} {child : ModuleSpec} {cases : List (Case ModuleSpec)}
    (h : (cases.map Case.key).Nodup) : ((place key child cases).map Case.key).Nodup := by
  rw [map_key_place]
  split
  · exact h
  · next hnew =>
    rw [← List.concat_eq_append]
    exact h.concat hnew

/-- After a case has been placed its key finds its module, and every other key what it found. -/
theorem find?_place (key : Payload) (child : ModuleSpec) (cases : List (Case ModuleSpec))
    (p : Payload) :
    ((place key child cases).find? fun c => c.key = p).map Case.child =
      if key = p then some child else (cases.find? fun c => c.key = p).map Case.child := by
  induction cases with
  | nil =>
    simp only [place, List.find?_cons, List.find?_nil]
    by_cases hp : key = p <;> simp [hp]
  | cons c rest ih =>
    unfold place
    by_cases hkey : c.key = key
    · subst hkey
      rw [if_pos rfl]
      by_cases hp : c.key = p <;> simp [hp]
    · rw [if_neg hkey, List.find?_cons, List.find?_cons]
      by_cases hp : c.key = p
      · have hother : key ≠ p := fun h => hkey (hp.trans h.symm)
        simp [hp, hother]
      · simp [hp, ih]

section After

variable (d : SwitchDraft) (calls : List SwitchCall)

@[simp] theorem after_cons (call : SwitchCall) :
    d.after (call :: calls) = (d.apply call).after calls := rfl

theorem condition_after : (d.after calls).parts.condition = d.parts.condition := by
  induction calls generalizing d with
  | nil => rfl
  | cons call rest ih =>
    rw [after_cons, ih]
    cases call <;> rfl

theorem id_after : (d.after calls).id = d.id := by
  induction calls generalizing d with
  | nil => rfl
  | cons call rest ih =>
    rw [after_cons, ih]
    cases call <;> rfl

/-- Keys that differ before calls differ after them. -/
theorem nodup_after {d : SwitchDraft} (h : (d.parts.cases.map Case.key).Nodup) :
    ((d.after calls).parts.cases.map Case.key).Nodup := by
  induction calls generalizing d with
  | nil => exact h
  | cons call rest ih =>
    rw [after_cons]
    apply ih
    cases call with
    | addCase key child => exact nodup_place h
    | input _ _ | output _ _ | otherwise _ => exact h

/-- After calls a key leads to the branch of its last case, or where none was added to what it led
to. -/
theorem find?_after (p : Payload) :
    ((d.after calls).parts.cases.find? fun c => c.key = p).map Case.child =
      (SwitchCall.lastCase? calls p).or
        ((d.parts.cases.find? fun c => c.key = p).map Case.child) := by
  induction calls generalizing d with
  | nil => rfl
  | cons call rest ih =>
    have hlast : SwitchCall.lastCase? (call :: rest) p =
        (SwitchCall.lastCase? rest p).or (call.case? p) := findSome?_reverse_cons ..
    rw [after_cons, ih, hlast, Option.or_assoc]
    congr 1
    cases call with
    | addCase key child =>
      refine (find?_place key child d.parts.cases p).trans ?_
      rw [SwitchCall.case?]
      split <;> rfl
    | input _ _ | output _ _ | otherwise _ => rfl

/-- After calls the default is the last one that was set, or the one before. -/
theorem fallback_after :
    (d.after calls).parts.fallback = (SwitchCall.lastFallback? calls).or d.parts.fallback := by
  induction calls generalizing d with
  | nil => rfl
  | cons call rest ih =>
    have hlast : SwitchCall.lastFallback? (call :: rest) =
        (SwitchCall.lastFallback? rest).or call.fallback? := findSome?_reverse_cons ..
    rw [after_cons, ih, hlast, Option.or_assoc]
    congr 1
    cases call <;> rfl

end After

variable (id : ModuleId) (condition : String) (calls : List SwitchCall)

/-- The keys of a draft that has been begun without cases are different. -/
theorem nodup_start_after :
    (((start id condition).after calls).parts.cases.map Case.key).Nodup :=
  nodup_after calls List.nodup_nil

/-- A payload selects what has been bound to an equal key last, or what has been set last to run
when no case fits. -/
theorem select_start_after (p : Payload) :
    Executable.select ((start id condition).after calls).parts.cases
        ((start id condition).after calls).parts.fallback p =
      (SwitchCall.lastCase? calls p).or (SwitchCall.lastFallback? calls) := by
  rw [Executable.select, find?_after, fallback_after]
  simp only [start, List.find?_nil, Option.map_none, Option.or_none]

end SwitchDraft

/-! ## Checking and compiling a switch -/

namespace ModuleSpec

/-- To check a switch whose keys are different is to check its names and then its children in their
order. -/
theorem validate_switch (id : ModuleId) (signature : Signature) (condition : String)
    {cases : List (Case ModuleSpec)} (fallback : Option ModuleSpec)
    (h : (cases.map Case.key).Nodup) :
    (ModuleSpec.mk id signature (.switch condition cases fallback)).validate = (do
      Kind.demand (id != "") .emptyModuleId
      signature.check id
      Kind.demand (condition != "") (.emptyCondition id)
      firstFailure ((cases.map Case.child ++ fallback.toList).map validate)) := by
  have hkeys : Kind.checkKeys id []
      (cases.map fun c => (⟨c.key, c.child.validate⟩ : Case (Except Error Unit))) = .ok () := by
    rw [Kind.checkKeys_eq_ok_iff, List.map_map]
    exact ⟨fun _ _ => List.not_mem_nil, h⟩
  have hchildren := Kind.children_map (fun t : ModuleId => t) validate
    (.switch condition cases fallback)
  rw [validate, fold_mk, checkNode, ← validate, hchildren]
  simp only [Kind.map, Kind.check, Kind.checkTarget, hkeys, bind_assoc]
  rfl

variable {m : Type → Type} [Monad m] [LawfulMonad m] [MonadExcept CompileFailure m]

/-- Cases with different keys are compiled in their order. -/
theorem compileCases_of_nodup (id : ModuleId) {seen : List Payload} {cases : List (Case (m Module))}
    (hseen : ∀ c ∈ cases, c.key ∉ seen) (hnodup : (cases.map Case.key).Nodup) :
    compileCases id seen cases = cases.mapM fun c => Case.mk c.key <$> c.child := by
  induction cases generalizing seen with
  | nil => rfl
  | cons c rest ih =>
    obtain ⟨hc, hrest⟩ := List.forall_mem_cons.1 hseen
    rw [List.map_cons, List.nodup_cons] at hnodup
    have hlater : ∀ d ∈ rest, d.key ∉ c.key :: seen := by
      intro d hd hmem
      rcases List.mem_cons.1 hmem with heq | hmem
      · exact hnodup.1 (heq ▸ List.mem_map_of_mem hd)
      · exact hrest d hd hmem
    rw [compileCases, if_neg hc, List.mapM_cons, ih hlater hnodup.2]
    simp only [bind_pure_comp, bind_map_left]

/-- To compile a switch whose keys are different is to check its signature and to compile its
children in their order. -/
theorem compileWith_switch (reference : ModuleId → m Module) (id : ModuleId) (signature : Signature)
    (condition : String) {cases : List (Case ModuleSpec)} (fallback : Option ModuleSpec)
    (h : (cases.map Case.key).Nodup) :
    (ModuleSpec.mk id signature (.switch condition cases fallback)).compileWith reference =
      ofExcept (signature.check id) >>= fun _ =>
        (cases.mapM fun c => Case.mk c.key <$> c.child.compileWith reference) >>= fun cases =>
          fallback.mapM (compileWith reference) >>= fun fallback =>
            let kind : Kind Module Module := .switch condition cases fallback
            pure (.mk id (signature.composite (some condition)
              (kind.children.map Module.signature)) kind) := by
  have hkeys : ((cases.map fun c => (⟨c.key, fold (compileNode reference) c.child⟩ :
      Case (m Module))).map Case.key).Nodup := by
    rwa [List.map_map]
  rw [compileWith, fold_mk, compileNode]
  simp only [Kind.map, compileKind, compileCases_of_nodup id (fun _ _ => List.not_mem_nil) hkeys,
    List.mapM_map, Function.comp_def]
  cases fallback <;> rfl

end ModuleSpec

end WorkflowEngine
