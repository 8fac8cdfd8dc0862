import WorkflowEngine.Module
import WorkflowEngine.Registry

/-!
# Compilation

Compiling turns a specification into a module: it checks what running relies on, binds every
reference to the module compiled for it, and completes the signatures of composites. Modules
compiled for references are kept and used again, and a reference to a specification that is still
being compiled is a circle.

A resolver may bind a name to a specification of another name. Then references may go on without end
and no circle is noticed; compilation follows them no deeper than twice the number of
specifications, beyond which nothing new can come.
-/

namespace WorkflowEngine

/-! ## Signatures of composites -/

namespace Signature

/-- Appends the declarations whose names are new. -/
def addNew (side specs : List ValueSpec) : List ValueSpec :=
  specs.foldl (fun side s => if side.any fun t => t.name == s.name then side else side ++ [s]) side

/-- A declared side, or if it is empty the union of the children's sides, where of declarations of
one name the first counts. -/
def deriveSide (declared : List ValueSpec) (children : List (List ValueSpec)) : List ValueSpec :=
  if declared.isEmpty then children.foldl addNew [] else declared

/-- Puts a switch's condition in front of the inputs unless it is among them. -/
def withCondition (condition : Option String) (input : List ValueSpec) : List ValueSpec :=
  match condition with
  | some name =>
    if input.any fun s => s.name == name then input else .required name .any :: input
  | none => input

/-- The complete signature of a composite: empty sides are derived from the children, a condition is
an input, and what the children depend on is depended on. -/
def composite (declared : Signature) (condition : Option String) (children : List Signature) :
    Signature where
  input := withCondition condition (deriveSide declared.input (children.map Signature.input))
  output := deriveSide declared.output (children.map Signature.output)
  dependencies :=
    children.foldl (fun all s => all.insertAll s.dependencies.toList) declared.dependencies

end Signature

/-! ## Compiling a module -/

/-- Why a module is not compiled. -/
inductive CompileFailure where
  /-- An error. -/
  | error (cause : Error)
  /-- References without end; the name at which following them was given up. -/
  | endless (id : ModuleId)
  deriving DecidableEq, Repr, Inhabited

/-- The message of a failure. -/
def CompileFailure.message : CompileFailure → String
  | .error cause => cause.message
  | .endless id => s!"References without end: '{id}'"

/-- What a compilation carries along: the modules it has compiled for references, and the names of
those still in the making. -/
structure CompileCache where
  /-- The names of the specifications being compiled, the outermost first. -/
  pending : List ModuleId
  /-- The modules compiled so far, by the names under which they were referred to. -/
  done : Dictionary Module

namespace CompileCache

/-- Nothing is being compiled, and nothing has been. -/
def empty : CompileCache := ⟨[], .empty⟩

/-- Begins with a specification. -/
def push (cache : CompileCache) (id : ModuleId) : CompileCache :=
  { cache with pending := cache.pending ++ [id] }

/-- Leaves the specification begun last. -/
def pop (cache : CompileCache) : CompileCache :=
  { cache with pending := cache.pending.dropLast }

/-- Keeps a module. -/
def keep (cache : CompileCache) (id : ModuleId) (m : Module) : CompileCache :=
  { cache with done := cache.done.set id m }

/-- The modules that were kept, by their own names. -/
def table (cache : CompileCache) : ModuleTable := .ofList (cache.done.toList.map Prod.snd)

end CompileCache

/-- A step of compilation. What has been kept stays kept when a step fails. -/
abbrev Compiling (α : Type) := ExceptT CompileFailure (StateM CompileCache) α

/-- A step taken while a specification is being compiled; the specification is left again whether
the step fails or not. -/
def Compiling.within {α : Type} (id : ModuleId) (x : Compiling α) : Compiling α := fun cache =>
  let (outcome, cache) := x (cache.push id)
  (outcome, cache.pop)

namespace ModuleSpec

/-! A module is compiled in the same way wherever steps can fail, whatever else they do. -/

variable {m : Type → Type} [Monad m] [MonadExcept CompileFailure m]

/-- Fails with an error. -/
def fail {α : Type} (e : Error) : m α := throw (.error e)

/-- Goes on with the result of a check. -/
def ofExcept {α : Type} : Except Error α → m α
  | .ok a => pure a
  | .error e => fail e

/-- Compiles cases in order, given the keys that stand before. -/
def compileCases (id : ModuleId) (seen : List Payload) :
    List (Case (m Module)) → m (List (Case Module))
  | [] => pure []
  | c :: rest => do
    if c.key ∈ seen then fail (.validation (.repeatedCase id c.key.text))
    let child ← c.child
    let rest ← compileCases id (c.key :: seen) rest
    return ⟨c.key, child⟩ :: rest

/-- What a leaf with one output requires. -/
def compileLeaf (id : ModuleId) (signature : Signature) (kind : Kind Module Module) :
    m Module := do
  let _ ← ofExcept (signature.singleOutput id)
  return .mk id signature kind

/-- The module of a kind whose children are still to be compiled. -/
def compileKind (reference : ModuleId → m Module) (id : ModuleId) (signature : Signature) :
    Kind ModuleId (m Module) → m Module
  | .sequential steps => do
    let steps ← steps.mapM fun s => return ⟨← s.child, s.mapping⟩
    return .mk id signature (.sequential steps)
  | .parallel branches => do
    let branches ← branches.mapM fun child => child
    return .mk id (signature.composite none (branches.map Module.signature)) (.parallel branches)
  | .switch condition cases fallback => do
    let cases ← compileCases id [] cases
    let fallback ← fallback.mapM fun child => child
    let kind : Kind Module Module := .switch condition cases fallback
    return .mk id (signature.composite (some condition) (kind.children.map Module.signature)) kind
  | .subWorkflow target => do
    let callee ← reference target
    return .mk id (callee.signature.withDependency target) (.subWorkflow callee)
  | .llm template => compileLeaf id signature (.llm template)
  | .tool name => do
    if name = "" then fail (.validation (.emptyTool id))
    compileLeaf id signature (.tool name)
  | .http => return .mk id (if signature.isEmpty then .http else signature) .http
  | .jsonExtract path =>
    compileLeaf id (if signature.isEmpty then .jsonExtract else signature) (.jsonExtract path)

/-- The module of a specification whose children are still to be compiled. -/
def compileNode (reference : ModuleId → m Module) (id : ModuleId) (signature : Signature)
    (kind : Kind ModuleId (m Module)) : m Module := do
  ofExcept (signature.check id)
  compileKind reference id signature kind

/-- The module of a specification, given how to compile a reference. -/
def compileWith (reference : ModuleId → m Module) (s : ModuleSpec) : m Module :=
  s.fold (compileNode reference)

end ModuleSpec

/-! ## Following references -/

namespace Resolver

/-- Compiles what a name refers to, unless that has been done or is being done, following references
at most `depth` deep. -/
def compileAt (r : Resolver) : (depth : Nat) → ModuleId → Compiling Module
  | depth, id => do
    let cache ← get
    match cache.done.get? id with
    | some m => return m
    | none =>
      if id ∈ cache.pending then
        ModuleSpec.fail (.cyclicWorkflow (cache.pending.dropWhile (· != id) ++ [id]))
      else match r.get? id with
        | none => ModuleSpec.fail (.unresolvedReference id)
        | some s =>
          match depth with
          | 0 => throw (.endless id)
          | depth + 1 =>
            let m ← (s.compileWith (compileAt r depth)).within s.id
            modify fun cache => cache.keep id m
            return m

/-- How deep references are followed. -/
def depth (r : Resolver) : Nat := 2 * r.size + 1

/-- Compiles what a name refers to, and keeps it. -/
def compileReference (r : Resolver) (id : ModuleId) : Compiling Module := r.compileAt r.depth id

/-- Compiles a specification that need not be among those of the resolver. -/
def compileSpec (r : Resolver) (s : ModuleSpec) : Compiling Module :=
  (s.compileWith (r.compileAt r.depth)).within s.id

end Resolver

/-- Compiles a specification and everything it refers to. -/
def Resolver.compileMain (r : Resolver) (main : ModuleId) : Except CompileFailure ModuleTable :=
  match r.compileReference main .empty with
  | (.ok _, cache) => .ok cache.table
  | (.error e, _) => .error e

/-- The outcome of compiling a whole registry. -/
structure CompileReport where
  /-- The modules that compiled. -/
  table : ModuleTable
  /-- The names of the specifications that did not compile, and why. -/
  failures : List (ModuleId × CompileFailure)

namespace Registry

/-- Compiles references one after the other, gathering the failures. -/
def compileEach (r : Resolver) (cache : CompileCache) :
    List ModuleId → List (ModuleId × CompileFailure) × CompileCache
  | [] => ([], cache)
  | id :: rest =>
    match r.compileReference id cache with
    | (.ok _, cache) => compileEach r cache rest
    | (.error e, cache) =>
      let (failures, cache) := compileEach r cache rest
      ((id, e) :: failures, cache)

/-- Compiles every registered specification; one that fails is reported and passed over. -/
def compileAll (r : Registry) : CompileReport :=
  let (failures, cache) := compileEach r.resolver .empty r.keys
  ⟨cache.table, failures⟩

end Registry

end WorkflowEngine
