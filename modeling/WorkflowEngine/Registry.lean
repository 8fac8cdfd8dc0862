import WorkflowEngine.Spec

/-!
# The loaded set of workflows

A registry binds each name to the first specification registered under it. Resolvers, from which
compilation looks specifications up, are more general: a name may be bound to a specification of
another name.
-/

namespace WorkflowEngine

/-- Specifications by name, as compilation looks them up. -/
abbrev Resolver := Dictionary ModuleSpec

/-- Specifications under their own names. -/
abbrev Registry := Ascending ModuleSpec ModuleSpec.id

namespace Registry

/-- Registers a specification, whose name must be free. -/
def register (r : Registry) (s : ModuleSpec) : Except Error Registry :=
  if r.contains s.id then .error (.validation (.repeatedModule s.id)) else .ok (r.insert s)

/-- Registers specifications one after the other. -/
def registerAll (r : Registry) (specs : List ModuleSpec) : Except Error Registry :=
  specs.foldlM register r

/-- The registry of specifications of distinct names. -/
def ofSpecs (specs : List ModuleSpec) : Except Error Registry := registerAll .empty specs

/-- The registered specifications by their names. -/
def resolver (r : Registry) : Resolver :=
  ⟨r.toList.map fun s => (s.id, s), by
    rw [List.pairwise_map]
    exact r.ascending⟩

/-- A name resolves to what is registered under it. -/
@[simp] theorem get?_resolver (r : Registry) (id : ModuleId) :
    r.resolver.get? id = r.find? id := by
  simp [Dictionary.get?, Ascending.find?, resolver, List.find?_map, Function.comp_def]

end Registry

end WorkflowEngine
