import WorkflowEngine.Kind

/-!
# Specifications of modules

A specification describes a unit of work: a name, a signature, and what it does, with children that
are specifications in turn and references that are names. Everything computed from a specification
follows its structure; `fold` states that recursion once.

The main statements are the equation of `fold` and the induction principle over the children.
-/

namespace WorkflowEngine

/-- A specification of a module. -/
inductive ModuleSpec where
  /-- A name, a signature, and what the module does. -/
  | mk (id : ModuleId) (signature : Signature) (kind : Kind ModuleId ModuleSpec)

namespace ModuleSpec

/-- The name of a specification. -/
def id : ModuleSpec → ModuleId
  | .mk id _ _ => id

/-- The declared signature. -/
def signature : ModuleSpec → Signature
  | .mk _ signature _ => signature

/-- What the module does. -/
def kind : ModuleSpec → Kind ModuleId ModuleSpec
  | .mk _ _ kind => kind

instance : Inhabited ModuleSpec := ⟨.mk "" .empty .http⟩

@[simp] theorem id_mk (id : ModuleId) (s : Signature) (k : Kind ModuleId ModuleSpec) :
    (mk id s k).id = id := rfl

@[simp] theorem signature_mk (id : ModuleId) (s : Signature) (k : Kind ModuleId ModuleSpec) :
    (mk id s k).signature = s := rfl

@[simp] theorem kind_mk (id : ModuleId) (s : Signature) (k : Kind ModuleId ModuleSpec) :
    (mk id s k).kind = k := rfl

@[ext] theorem ext {s t : ModuleSpec} (hid : s.id = t.id) (hs : s.signature = t.signature)
    (hk : s.kind = t.kind) : s = t := by
  cases s; cases t; simp_all

/-! ## Recursion -/

section Fold

variable {β : Type} (f : ModuleId → Signature → Kind ModuleId β → β)

mutual

/-- Computes from the leaves upwards: `f` sees a module's name, its signature, and what it does with
the results in place of the children. -/
def fold : ModuleSpec → β
  | .mk id signature kind => f id signature (foldKind kind)

/-- Results in place of a kind's children. -/
def foldKind : Kind ModuleId ModuleSpec → Kind ModuleId β
  | .sequential steps => .sequential (foldSteps steps)
  | .parallel branches => .parallel (foldList branches)
  | .switch condition cases fallback => .switch condition (foldCases cases) (foldOption fallback)
  | .subWorkflow target => .subWorkflow target
  | .llm template => .llm template
  | .tool name => .tool name
  | .http => .http
  | .jsonExtract path => .jsonExtract path

/-- Results in place of the children of steps. -/
def foldSteps : List (Step ModuleSpec) → List (Step β)
  | [] => []
  | ⟨child, mapping⟩ :: rest => ⟨fold child, mapping⟩ :: foldSteps rest

/-- Results in place of branches. -/
def foldList : List ModuleSpec → List β
  | [] => []
  | child :: rest => fold child :: foldList rest

/-- Results in place of the children of cases. -/
def foldCases : List (Case ModuleSpec) → List (Case β)
  | [] => []
  | ⟨key, child⟩ :: rest => ⟨key, fold child⟩ :: foldCases rest

/-- A result in place of a fallback. -/
def foldOption : Option ModuleSpec → Option β
  | none => none
  | some child => some (fold child)

end

theorem foldSteps_eq_map (steps : List (Step ModuleSpec)) :
    foldSteps f steps = steps.map fun s => ⟨fold f s.child, s.mapping⟩ := by
  induction steps with
  | nil => rfl
  | cons s rest ih => simp [foldSteps, ih]

theorem foldList_eq_map (branches : List ModuleSpec) :
    foldList f branches = branches.map (fold f) := by
  induction branches with
  | nil => rfl
  | cons s rest ih => simp [foldList, ih]

theorem foldCases_eq_map (cases : List (Case ModuleSpec)) :
    foldCases f cases = cases.map fun c => ⟨c.key, fold f c.child⟩ := by
  induction cases with
  | nil => rfl
  | cons s rest ih => simp [foldCases, ih]

theorem foldOption_eq_map (fallback : Option ModuleSpec) :
    foldOption f fallback = fallback.map (fold f) := by
  cases fallback <;> rfl

theorem foldKind_eq_map (k : Kind ModuleId ModuleSpec) :
    foldKind f k = k.map (fun r => r) (fold f) := by
  cases k <;>
    simp [foldKind, Kind.map, foldSteps_eq_map, foldList_eq_map, foldCases_eq_map,
      foldOption_eq_map]

/-- The result for a module is formed from the results for its children. -/
theorem fold_mk (id : ModuleId) (s : Signature) (k : Kind ModuleId ModuleSpec) :
    fold f (.mk id s k) = f id s (k.map (fun r => r) (fold f)) := by
  rw [← foldKind_eq_map]
  rfl

end Fold

/-- What holds of a module whenever it holds of all its children holds of every module. -/
theorem induct {P : ModuleSpec → Prop}
    (step : ∀ id signature kind, (∀ c ∈ Kind.children kind, P c) → P (.mk id signature kind))
    (s : ModuleSpec) : P s :=
  @ModuleSpec.rec P (fun k => ∀ c ∈ k.children, P c)
    (fun steps => ∀ c ∈ steps.map Step.child, P c) (fun branches => ∀ c ∈ branches, P c)
    (fun cases => ∀ c ∈ cases.map Case.child, P c) (fun fallback => ∀ c ∈ fallback.toList, P c)
    (fun s => P s.child) (fun c => P c.child)
    (fun id signature kind ih => step id signature kind ih)
    (fun _ ih => ih) (fun _ ih => ih)
    (fun _ _ _ ihc ihf c hc => (List.mem_append.1 hc).elim (ihc c) (ihf c))
    (fun _ _ hc => by simp [Kind.children] at hc) (fun _ _ hc => by simp [Kind.children] at hc)
    (fun _ _ hc => by simp [Kind.children] at hc) (fun _ hc => by simp [Kind.children] at hc)
    (fun _ _ hc => by simp [Kind.children] at hc)
    (fun _ hc => by simp at hc)
    (fun _ _ ih ihr c hc => (List.mem_cons.1 hc).elim (fun h => h ▸ ih) (ihr c))
    (fun _ hc => by simp at hc)
    (fun _ _ ih ihr c hc => (List.mem_cons.1 hc).elim (fun h => h ▸ ih) (ihr c))
    (fun _ hc => by simp at hc)
    (fun _ _ ih ihr c hc => (List.mem_cons.1 hc).elim (fun h => h ▸ ih) (ihr c))
    (fun _ hc => by simp at hc)
    (fun child ih c hc => by
      have h : c = child := by simpa using hc
      exact h ▸ ih)
    (fun _ _ ih => ih) (fun _ _ ih => ih) s

/-! ## Leaves and references -/

/-- A text generation. -/
def llm (id : ModuleId) (template : String) (input : List ValueSpec) (output : ValueSpec) :
    ModuleSpec :=
  .mk id (.ofSides input [output]) (.llm template)

/-- A tool call. -/
def tool (id : ModuleId) (name : String) (input : List ValueSpec) (output : ValueSpec) :
    ModuleSpec :=
  .mk id (.ofSides input [output]) (.tool name)

/-- A call of another workflow; compiled, it has that workflow's signature. -/
def call (target : ModuleId) : ModuleSpec :=
  .mk ("call_" ++ target) (Signature.empty.withDependency target) (.subWorkflow target)

/-- A fetch with the usual signature. -/
def http (id : ModuleId) : ModuleSpec := .mk id .http .http

/-- An extraction with the usual signature. -/
def jsonExtract (id : ModuleId) (path : String) : ModuleSpec :=
  .mk id .jsonExtract (.jsonExtract path)

/-- The class of a specification. -/
def type (s : ModuleSpec) : ModuleType := s.kind.type

/-- The direct children in the order of their declaration. -/
def children (s : ModuleSpec) : List ModuleSpec := s.kind.children

/-- The references of a module: its own, and those of its children. -/
def gatherReferences (k : Kind ModuleId TextSet) : TextSet :=
  k.children.foldl (fun all refs => all.insertAll refs.toList) (.ofList k.target?.toList)

/-- Every workflow referred to anywhere inside a specification. -/
def references : ModuleSpec → TextSet := fold fun _ _ k => gatherReferences k

end ModuleSpec

end WorkflowEngine
