import WorkflowEngine.Compilation
import WorkflowEngine.Execution
import WorkflowEngine.Metrics

/-!
# The engine

An engine runs modules of a compiled table in surroundings of its own, within a limit of time, and
measures what it runs.
-/

namespace WorkflowEngine

/-- An engine. -/
structure Engine where
  /-- The compiled modules. -/
  modules : ModuleTable
  /-- Generates texts. -/
  client : ChatClient
  /-- Tools that leaves may call. -/
  tools : Toolbox
  /-- What to do with inputs that cannot be resolved. -/
  policy : InputPolicy
  /-- How long a run may take. -/
  timeout : Option Duration
  /-- Gets answers to requests. -/
  fetch : Fetch

namespace Engine

/-- An engine with the client that repeats the prompt and the built-in tools. -/
def new (modules : ModuleTable) (fetch : Fetch) : Engine :=
  ⟨modules, .mock, .builtin, .lenient, none, fetch⟩

/-- The surroundings of a run. -/
def context (e : Engine) (executionId : String) (input : List Value) : Context where
  executionId := executionId
  input := ⟨input⟩
  client := e.client
  tools := e.tools
  modules := e.modules
  policy := e.policy
  fetch := e.fetch

/-- Runs a module within the limit of time. -/
def execute (e : Engine) (executionId : String) (m : Module) (input : List Value) :
    Run (List Value) :=
  (m.run (e.context executionId input) input).withinLimit e.timeout

/-- Runs a module of the table; nothing is run for a name that is not there. -/
def executeById (e : Engine) (executionId : String) (id : ModuleId) (input : List Value) :
    Run (List Value) × List Measurement :=
  match e.modules.find? id with
  | some m =>
    let r := e.execute executionId m input
    (r, Measurement.ofRun r)
  | none => (.fail (.unresolvedReference id), [])

end Engine

end WorkflowEngine
