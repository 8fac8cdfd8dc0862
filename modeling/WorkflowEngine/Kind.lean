import WorkflowEngine.Signature

/-!
# The kinds of module

A module is a composite of further modules or a leaf. The shape of each kind is given once, over the
type of its children and the type of its references, so that specifications and compiled modules
share it. The lemmas say that mapping over the children respects identity and composition.
-/

namespace WorkflowEngine

/-- The classes into which modules fall. -/
inductive ModuleType where
  /-- Steps one after the other. -/
  | sequential
  /-- Branches at the same time. -/
  | parallel
  /-- One of several branches. -/
  | switch
  /-- Another workflow. -/
  | subWorkflow
  /-- A text generation. -/
  | llm
  /-- Every other leaf. -/
  | tool
  deriving DecidableEq, Repr, Inhabited

namespace ModuleType

/-- Every class. -/
def all : List ModuleType := [.sequential, .parallel, .switch, .subWorkflow, .llm, .tool]

/-- The name of a class. -/
def name : ModuleType → String
  | .sequential => "sequential"
  | .parallel => "parallel"
  | .switch => "switch"
  | .subWorkflow => "sub_workflow"
  | .llm => "llm"
  | .tool => "tool"

/-- The class of a name. -/
def ofName? (s : String) : Option ModuleType := all.find? fun t => t.name == s

/-- The name of a class stands for it. -/
@[simp] theorem ofName?_name (t : ModuleType) : ofName? t.name = some t := by cases t <;> decide

end ModuleType

/-- One step of a sequence: a child and, for some of its inputs, the names of the values that they
take. -/
structure Step (α : Type) where
  /-- The module to run. -/
  child : α
  /-- For an input's name the name of its source. -/
  mapping : Dictionary String
  deriving DecidableEq, Inhabited

/-- One case of a switch. -/
structure Case (α : Type) where
  /-- The payload that selects the case. -/
  key : Payload
  /-- The module to run. -/
  child : α
  deriving DecidableEq, Inhabited

/-- What a module does, given its references `ρ` and its children `α`. -/
inductive Kind (ρ α : Type) where
  /-- Runs steps in order, gathering their outputs. -/
  | sequential (steps : List (Step α))
  /-- Runs branches at the same time and lists their outputs in order. -/
  | parallel (branches : List α)
  /-- Runs the branch selected by the value of a variable. -/
  | switch (condition : String) (cases : List (Case α)) (fallback : Option α)
  /-- Runs another workflow. -/
  | subWorkflow (target : ρ)
  /-- Asks for the text that a filled template prompts. -/
  | llm (template : String)
  /-- Calls a tool. -/
  | tool (name : String)
  /-- Fetches an address. -/
  | http
  /-- Takes what stands at a path of a JSON value. -/
  | jsonExtract (path : String)
  deriving DecidableEq, Inhabited

namespace Kind

variable {ρ σ τ α β γ : Type}

/-- The class of a kind. -/
def type : Kind ρ α → ModuleType
  | .sequential _ => .sequential
  | .parallel _ => .parallel
  | .switch _ _ _ => .switch
  | .subWorkflow _ => .subWorkflow
  | .llm _ => .llm
  | .tool _ | .http | .jsonExtract _ => .tool

/-- The children in the order of their declaration. -/
def children : Kind ρ α → List α
  | .sequential steps => steps.map Step.child
  | .parallel branches => branches
  | .switch _ cases fallback => cases.map Case.child ++ fallback.toList
  | _ => []

/-- The reference of a kind that is one. -/
def target? : Kind ρ α → Option ρ
  | .subWorkflow target => some target
  | _ => none

/-- Replaces references and children. -/
def map (f : ρ → σ) (g : α → β) : Kind ρ α → Kind σ β
  | .sequential steps => .sequential (steps.map fun s => ⟨g s.child, s.mapping⟩)
  | .parallel branches => .parallel (branches.map g)
  | .switch condition cases fallback =>
    .switch condition (cases.map fun c => ⟨c.key, g c.child⟩) (fallback.map g)
  | .subWorkflow target => .subWorkflow (f target)
  | .llm template => .llm template
  | .tool name => .tool name
  | .http => .http
  | .jsonExtract path => .jsonExtract path

/-- Replacing nothing changes nothing. -/
@[simp] theorem map_id (k : Kind ρ α) : k.map id id = k := by
  cases k <;> simp [map]

/-- Replacing twice is replacing once by the composition. -/
theorem map_map (f : ρ → σ) (g : α → β) (f' : σ → τ) (g' : β → γ) (k : Kind ρ α) :
    (k.map f g).map f' g' = k.map (f' ∘ f) (g' ∘ g) := by
  cases k <;> simp [map, Function.comp_def]

/-- Replacement keeps the class. -/
@[simp] theorem type_map (f : ρ → σ) (g : α → β) (k : Kind ρ α) : (k.map f g).type = k.type := by
  cases k <;> rfl

/-- The children after a replacement are the replaced children. -/
@[simp] theorem children_map (f : ρ → σ) (g : α → β) (k : Kind ρ α) :
    (k.map f g).children = k.children.map g := by
  cases k with
  | switch condition cases fallback => cases fallback <;> simp [map, children, Function.comp_def]
  | _ => simp [map, children, Function.comp_def]

/-- The reference after a replacement is the replaced reference. -/
@[simp] theorem target?_map (f : ρ → σ) (g : α → β) (k : Kind ρ α) :
    (k.map f g).target? = k.target?.map f := by
  cases k <;> rfl

/-- Replacements that agree on the children agree. -/
theorem map_congr {f : ρ → σ} {g g' : α → β} {k : Kind ρ α} (h : ∀ c ∈ k.children, g c = g' c) :
    k.map f g = k.map f g' := by
  cases k with
  | sequential steps =>
    simp only [map, sequential.injEq, List.map_inj_left, Step.mk.injEq, and_true]
    exact fun s hs => h _ (List.mem_map_of_mem hs)
  | parallel branches =>
    simp only [map, parallel.injEq, List.map_inj_left]
    exact h
  | switch condition cases fallback =>
    simp only [children, List.mem_append, List.mem_map, Option.mem_toList] at h
    simp only [map, switch.injEq, List.map_inj_left, Case.mk.injEq, true_and]
    refine ⟨fun c hc => h _ (.inl ⟨c, hc, rfl⟩), ?_⟩
    cases fallback with
    | none => rfl
    | some d => simp [h d (.inr rfl)]
  | _ => rfl

end Kind

end WorkflowEngine
