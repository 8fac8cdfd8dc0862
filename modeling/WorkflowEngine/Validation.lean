import WorkflowEngine.Registry

/-!
# Validation

A specification is valid when every module in it passes the checks of its kind. A registry is valid
when all its specifications are, every reference leads to a registered specification, and the
references form no circle. Circles are searched depth first, with one set of visited names for all
starting points.
-/

namespace WorkflowEngine

/-- The first failure of a list of checks. -/
def firstFailure : List (Except Error Unit) → Except Error Unit
  | [] => .ok ()
  | .ok () :: rest => firstFailure rest
  | .error e :: _ => .error e

/-- A list of checks passes exactly when each of them does. -/
theorem firstFailure_eq_ok_iff (checks : List (Except Error Unit)) :
    firstFailure checks = .ok () ↔ ∀ c ∈ checks, c = .ok () := by
  induction checks with
  | nil => simp [firstFailure]
  | cons c rest ih =>
    cases c with
    | error e => simp [firstFailure]
    | ok u => simp [firstFailure, ih]

namespace Kind

/-- Passes unless something is missing. -/
def demand (present : Bool) (fault : SpecFault) : Except Error Unit :=
  if present then .ok () else .error (.validation fault)

/-- Checks that the keys of cases are distinct, given the keys that stand before. -/
def checkKeys {α : Type} (id : ModuleId) (seen : List Payload) : List (Case α) → Except Error Unit
  | [] => .ok ()
  | c :: rest =>
    if c.key ∈ seen then .error (.validation (.repeatedCase id c.key.text))
    else checkKeys id (c.key :: seen) rest

/-- The checks of one module apart from its children. -/
def check {ρ α : Type} (id : ModuleId) (signature : Signature) : Kind ρ α → Except Error Unit
  | .llm _ => signature.singleOutput id *> .ok ()
  | .tool name => signature.singleOutput id *> demand (name != "") (.emptyTool id)
  | .jsonExtract path => demand (path != "") (.emptyPath id)
  | .switch condition cases _ => do
    demand (condition != "") (.emptyCondition id)
    checkKeys id [] cases
  | _ => .ok ()

/-- The check of a reference. -/
def checkTarget {α : Type} (id : ModuleId) : Kind ModuleId α → Except Error Unit
  | .subWorkflow target => demand (target != "") (.emptyTarget id)
  | _ => .ok ()

end Kind

namespace ModuleSpec

/-- The checks of a module and, after them, those of its children. -/
def checkNode (id : ModuleId) (signature : Signature) (kind : Kind ModuleId (Except Error Unit)) :
    Except Error Unit := do
  Kind.demand (id != "") .emptyModuleId
  signature.check id
  kind.check id signature
  kind.checkTarget id
  firstFailure kind.children

/-- Checks a specification and everything inside it. -/
def validate : ModuleSpec → Except Error Unit := fold checkNode

end ModuleSpec

namespace Registry

/-- The names that a registered specification refers to, in ascending order. -/
def referencesOf (r : Registry) (id : ModuleId) : List ModuleId :=
  match r.find? id with
  | some s => s.references.toList
  | none => []

/-- Checks that a specification refers to registered names other than its own. -/
def checkReferences (r : Registry) (s : ModuleSpec) : Except Error Unit :=
  firstFailure <| s.references.toList.map fun target =>
    if !r.contains target then .error (.unresolvedReference target)
    else if target = s.id then .error (.cyclicWorkflow [s.id, target])
    else .ok ()

/-- What a depth-first search has found: a circle, or else the names visited so far. -/
abbrev Search := Except (List ModuleId) (List ModuleId)

/-- Searches for a circle from a name, along a path of names that lead to it. The names of a path
are distinct and registered, so a depth above the size of the registry is never used up. -/
def searchFrom (r : Registry) :
    (depth : Nat) → (path visited : List ModuleId) → ModuleId → Search
  | 0, _, visited, _ => .ok visited
  | depth + 1, path, visited, id =>
    if id ∈ path then .error (path.dropWhile (· != id) ++ [id])
    else if id ∈ visited then .ok visited
    else (r.referencesOf id).foldlM (searchFrom r depth (path ++ [id])) (id :: visited)

/-- The first circle of references, searched from every name in ascending order. -/
def findCycle? (r : Registry) : Option (List ModuleId) :=
  match r.keys.foldlM (searchFrom r (r.size + 1) []) [] with
  | .ok _ => none
  | .error chain => some chain

/-- Checks a registry, looking at the references of its specifications in a given order. -/
def validateIn (r : Registry) (order : List ModuleSpec) : Except Error Unit := do
  firstFailure (r.toList.map ModuleSpec.validate)
  firstFailure (order.map r.checkReferences)
  match r.findCycle? with
  | some chain => .error (.cyclicWorkflow chain)
  | none => .ok ()

/-- Checks a registry. -/
def validate (r : Registry) : Except Error Unit := r.validateIn r.toList

end Registry

end WorkflowEngine
