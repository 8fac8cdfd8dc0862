import WorkflowEngine.Kind

/-!
# Compiled modules

A compiled module has the shape of a specification, except that a reference has become the module it
refers to, and that the signature is complete. `fold` states the recursion over a module once; with
it come its equation and the induction principle.
-/

namespace WorkflowEngine

/-- A compiled module. -/
inductive Module where
  /-- A name, the complete signature, and what the module does. -/
  | mk (id : ModuleId) (signature : Signature) (kind : Kind Module Module)

namespace Module

/-- The name of a module. -/
def id : Module → ModuleId
  | .mk id _ _ => id

/-- The complete signature. -/
def signature : Module → Signature
  | .mk _ signature _ => signature

/-- What the module does. -/
def kind : Module → Kind Module Module
  | .mk _ _ kind => kind

instance : Inhabited Module := ⟨.mk "" .empty .http⟩

@[simp] theorem id_mk (id : ModuleId) (s : Signature) (k : Kind Module Module) :
    (mk id s k).id = id := rfl

@[simp] theorem signature_mk (id : ModuleId) (s : Signature) (k : Kind Module Module) :
    (mk id s k).signature = s := rfl

@[simp] theorem kind_mk (id : ModuleId) (s : Signature) (k : Kind Module Module) :
    (mk id s k).kind = k := rfl

/-- The class of a module. -/
def type (m : Module) : ModuleType := m.kind.type

section Fold

variable {β : Type} (f : ModuleId → Signature → Kind β β → β)

mutual

/-- Computes from the leaves upwards: `f` sees a module's name, its signature, and what it does with
the results in place of the children and of the module referred to. -/
def fold : Module → β
  | .mk id signature kind => f id signature (foldKind kind)

/-- Results in place of a kind's children. -/
def foldKind : Kind Module Module → Kind β β
  | .sequential steps => .sequential (foldSteps steps)
  | .parallel branches => .parallel (foldList branches)
  | .switch condition cases fallback => .switch condition (foldCases cases) (foldOption fallback)
  | .subWorkflow target => .subWorkflow (fold target)
  | .llm template => .llm template
  | .tool name => .tool name
  | .http => .http
  | .jsonExtract path => .jsonExtract path

/-- Results in place of the children of steps. -/
def foldSteps : List (Step Module) → List (Step β)
  | [] => []
  | ⟨child, mapping⟩ :: rest => ⟨fold child, mapping⟩ :: foldSteps rest

/-- Results in place of branches. -/
def foldList : List Module → List β
  | [] => []
  | child :: rest => fold child :: foldList rest

/-- Results in place of the children of cases. -/
def foldCases : List (Case Module) → List (Case β)
  | [] => []
  | ⟨key, child⟩ :: rest => ⟨key, fold child⟩ :: foldCases rest

/-- A result in place of a fallback. -/
def foldOption : Option Module → Option β
  | none => none
  | some child => some (fold child)

end

theorem foldSteps_eq_map (steps : List (Step Module)) :
    foldSteps f steps = steps.map fun s => ⟨fold f s.child, s.mapping⟩ := by
  induction steps with
  | nil => rfl
  | cons s rest ih => simp [foldSteps, ih]

theorem foldList_eq_map (branches : List Module) : foldList f branches = branches.map (fold f) := by
  induction branches with
  | nil => rfl
  | cons s rest ih => simp [foldList, ih]

theorem foldCases_eq_map (cases : List (Case Module)) :
    foldCases f cases = cases.map fun c => ⟨c.key, fold f c.child⟩ := by
  induction cases with
  | nil => rfl
  | cons s rest ih => simp [foldCases, ih]

theorem foldOption_eq_map (fallback : Option Module) :
    foldOption f fallback = fallback.map (fold f) := by
  cases fallback <;> rfl

theorem foldKind_eq_map (k : Kind Module Module) : foldKind f k = k.map (fold f) (fold f) := by
  cases k <;>
    simp [foldKind, Kind.map, foldSteps_eq_map, foldList_eq_map, foldCases_eq_map,
      foldOption_eq_map]

/-- The result for a module is formed from the results for its children. -/
theorem fold_mk (id : ModuleId) (s : Signature) (k : Kind Module Module) :
    fold f (.mk id s k) = f id s (k.map (fold f) (fold f)) := by
  rw [← foldKind_eq_map]
  rfl

end Fold

/-- What holds of a module whenever it holds of all its children and of the module it refers to
holds of every module. -/
theorem induct {P : Module → Prop}
    (step : ∀ id signature kind, (∀ c ∈ Kind.children kind, P c) →
      (∀ t ∈ Kind.target? kind, P t) → P (.mk id signature kind))
    (m : Module) : P m :=
  @Module.rec P (fun k => (∀ c ∈ k.children, P c) ∧ ∀ t ∈ k.target?, P t)
    (fun steps => ∀ c ∈ steps.map Step.child, P c) (fun branches => ∀ c ∈ branches, P c)
    (fun cases => ∀ c ∈ cases.map Case.child, P c) (fun fallback => ∀ c ∈ fallback.toList, P c)
    (fun s => P s.child) (fun c => P c.child)
    (fun id signature kind ih => step id signature kind ih.1 ih.2)
    (fun _ ih => ⟨ih, fun _ h => by simp [Kind.target?] at h⟩)
    (fun _ ih => ⟨ih, fun _ h => by simp [Kind.target?] at h⟩)
    (fun _ _ _ ihc ihf => ⟨fun c hc => (List.mem_append.1 hc).elim (ihc c) (ihf c),
      fun _ h => by simp [Kind.target?] at h⟩)
    (fun target ih => ⟨fun _ hc => by simp [Kind.children] at hc, fun t h => by
      have h : target = t := by simpa [Kind.target?] using h
      exact h ▸ ih⟩)
    (fun _ => ⟨fun _ hc => by simp [Kind.children] at hc, fun _ h => by simp [Kind.target?] at h⟩)
    (fun _ => ⟨fun _ hc => by simp [Kind.children] at hc, fun _ h => by simp [Kind.target?] at h⟩)
    ⟨fun _ hc => by simp [Kind.children] at hc, fun _ h => by simp [Kind.target?] at h⟩
    (fun _ => ⟨fun _ hc => by simp [Kind.children] at hc, fun _ h => by simp [Kind.target?] at h⟩)
    (fun _ hc => by simp at hc)
    (fun _ _ ih ihr c hc => (List.mem_cons.1 hc).elim (fun h => h ▸ ih) (ihr c))
    (fun _ hc => by simp at hc)
    (fun _ _ ih ihr c hc => (List.mem_cons.1 hc).elim (fun h => h ▸ ih) (ihr c))
    (fun _ hc => by simp at hc)
    (fun _ _ ih ihr c hc => (List.mem_cons.1 hc).elim (fun h => h ▸ ih) (ihr c))
    (fun _ hc => by simp at hc)
    (fun child ih c hc => by
      have h : c = child := by simpa using hc
      exact h ▸ ih)
    (fun _ _ ih => ih) (fun _ _ ih => ih) m

end Module

/-- Compiled modules by their names. -/
abbrev ModuleTable := Ascending Module Module.id

end WorkflowEngine
