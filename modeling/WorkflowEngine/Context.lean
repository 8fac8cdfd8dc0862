import WorkflowEngine.Chat
import WorkflowEngine.Module
import WorkflowEngine.Tool

/-!
# The surroundings of a run

A running module draws on the top-level input, a chat client, tools, the table of compiled modules
and a policy for inputs that cannot be resolved.
-/

namespace WorkflowEngine

/-- What composites do with a declared input that cannot be resolved. -/
inductive InputPolicy where
  /-- They leave it out. -/
  | lenient
  /-- They fail, unless it may stay unbound. -/
  | strict
  deriving DecidableEq, Repr, Inhabited

namespace InputPolicy

/-- The name of a policy. -/
def name : InputPolicy → String
  | .lenient => "lenient"
  | .strict => "strict"

/-- The policy of a name. -/
def ofName? : String → Option InputPolicy
  | "lenient" => some .lenient
  | "strict" => some .strict
  | _ => none

/-- The policy that a text names, in letters of either case. -/
def read (text : String) : Except Error InputPolicy :=
  let name := Text.toSmall (Text.trim text)
  match ofName? name with
  | some policy => .ok policy
  | none => .error (.setting (.unknownPolicy name))

/-- Whether every declared input has to be resolved. -/
def isStrict (p : InputPolicy) : Bool := p == .strict

end InputPolicy

/-- The surroundings of a run. -/
structure Context where
  /-- Identifies the run. -/
  executionId : String
  /-- The top-level input. -/
  input : ValueSet
  /-- Generates texts. -/
  client : ChatClient
  /-- Tools that leaves may call. -/
  tools : Toolbox
  /-- The compiled modules. -/
  modules : ModuleTable
  /-- What to do with inputs that cannot be resolved. -/
  policy : InputPolicy
  /-- Gets answers to requests. -/
  fetch : Fetch

namespace Context

/-- Surroundings with the client that repeats the prompt, and without tools and modules. -/
def new (executionId : String) : Context :=
  ⟨executionId, .empty, .mock, .empty, .empty, .lenient, .unreachable⟩

/-- The payload of a top-level input. -/
def payload? (c : Context) (name : String) : Option Payload :=
  (c.input.get? name).map Value.payload

/-- A compiled module. -/
def module? (c : Context) (id : ModuleId) : Option Module := c.modules.find? id

end Context

end WorkflowEngine
