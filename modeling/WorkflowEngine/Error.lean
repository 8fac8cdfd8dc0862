import WorkflowEngine.Duration
import WorkflowEngine.Json.Basic

/-!
# Errors

Every failure is a cause: a broken reference, a cycle, a fault of a specification, a failure of a
module or of a capability. A cause has a fixed code, a message, and belongs to at most one of two
classes: those raised before anything runs, and those raised by an external capability. Programs
that supply capabilities may raise the general causes with a text of their own.
-/

namespace WorkflowEngine

/-- A side of a signature. -/
inductive Side where
  /-- What a module takes. -/
  | input
  /-- What a module gives. -/
  | output
  deriving DecidableEq, Repr, Inhabited

/-- The word for a side. -/
def Side.text : Side → String
  | .input => "input"
  | .output => "output"

/-- What is wrong with a specification. -/
inductive SpecFault where
  /-- A module without identifier. -/
  | emptyModuleId
  /-- A declared value without name. -/
  | emptyName (id : String) (side : Side)
  /-- Two declarations of one name on one side. -/
  | repeatedName (id : String) (side : Side) (name : String)
  /-- A leaf that declares another number of outputs than one. -/
  | outputCount (id : String) (found : Nat)
  /-- A tool call without a tool. -/
  | emptyTool (id : String)
  /-- An extraction without a path. -/
  | emptyPath (id : String)
  /-- A reference to nothing. -/
  | emptyTarget (id : String)
  /-- A switch without a condition. -/
  | emptyCondition (id : String)
  /-- Two cases of one key; the key is given by its text. -/
  | repeatedCase (id : String) (key : String)
  /-- Two modules of one identifier. -/
  | repeatedModule (id : String)
  /-- Any other fault. -/
  | other (text : String)
  deriving DecidableEq, Repr, Inhabited

/-- The message of a fault. -/
def SpecFault.message : SpecFault → String
  | .emptyModuleId => "Module ID cannot be empty"
  | .emptyName id side => s!"Module '{id}' has an empty {side.text} name"
  | .repeatedName id side name => s!"Module '{id}' declares {side.text} '{name}' more than once"
  | .outputCount id found => s!"Module '{id}' must declare exactly one output, found {found}"
  | .emptyTool id => s!"Module '{id}' has empty tool name"
  | .emptyPath id => s!"Module '{id}' has empty extraction path"
  | .emptyTarget id => s!"Module '{id}' references an empty workflow id"
  | .emptyCondition id => s!"Switch '{id}' has empty condition variable"
  | .repeatedCase id key => s!"Switch '{id}' has duplicate case {key}"
  | .repeatedModule id => s!"Duplicate module id: {id}"
  | .other text => text

/-- Why a leaf cannot do its work. -/
inductive LeafFault where
  /-- An address that is none; the reason is given in words. -/
  | invalidUrl (text reason : String)
  /-- An address of another scheme than http and https. -/
  | unsupportedScheme (scheme : String)
  /-- A request method that is none. -/
  | invalidMethod (text : String)
  /-- A leaf that lacks an input it cannot do without. -/
  | missingInput (id name : String)
  /-- Any other fault. -/
  | other (text : String)
  deriving DecidableEq, Repr, Inhabited

/-- The message of a fault. -/
def LeafFault.message : LeafFault → String
  | .invalidUrl text reason => s!"Invalid URL '{text}': {reason}"
  | .unsupportedScheme scheme =>
    s!"Unsupported URL scheme '{scheme}'. Only http and https are allowed."
  | .invalidMethod text => s!"Invalid HTTP method '{text}'"
  | .missingInput id name => s!"Module '{id}' is missing '{name}' input"
  | .other text => text

/-- Why a text cannot be read. -/
inductive ReadFault where
  /-- No integer of 64 bits. -/
  | notInteger (text : String)
  /-- No truth value. -/
  | notBoolean (text : String)
  /-- JSON, but no object. -/
  | notObject (text : String)
  /-- JSON, but no list. -/
  | notList (text : String)
  /-- A document without content. -/
  | emptyDocument
  /-- A document without modules. -/
  | noModules
  /-- A document that lacks a field. -/
  | missingField (name : String)
  /-- A document that is not of the expected form. -/
  | invalidDocument (reason : String)
  /-- Any other fault. -/
  | other (text : String)
  deriving DecidableEq, Repr, Inhabited

/-- The message of a fault. -/
def ReadFault.message : ReadFault → String
  | .notInteger text => s!"'{text}' is not an integer"
  | .notBoolean text => s!"'{text}' is not a boolean"
  | .notObject text => s!"'{text}' is not a JSON object"
  | .notList text => s!"'{text}' is not a JSON array"
  | .emptyDocument => "Empty workflow definition"
  | .noModules => "Workflow document declares no modules"
  | .missingField name => s!"Missing required field: {name}"
  | .invalidDocument reason => s!"Invalid YAML: {reason}"
  | .other text => text

/-- Why settings are refused. -/
inductive SettingFault where
  /-- The name of no input policy, in small letters. -/
  | unknownPolicy (text : String)
  /-- The name of no provider, in small letters. -/
  | unknownProvider (text : String)
  /-- A file that is not of the expected form. -/
  | invalidFile (path reason : String)
  /-- Any other fault. -/
  | other (text : String)
  deriving DecidableEq, Repr, Inhabited

/-- The message of a fault. -/
def SettingFault.message : SettingFault → String
  | .unknownPolicy text => s!"Unknown input policy '{text}' (expected 'lenient' or 'strict')"
  | .unknownProvider text => s!"Unknown LLM provider '{text}'"
  | .invalidFile path reason => s!"Invalid config file {path}: {reason}"
  | .other text => text

/-- Why no text was generated. -/
inductive ChatFault where
  /-- The request got no answer. -/
  | requestFailed (reason : String)
  /-- The service refused; its status line and its words. -/
  | refused (status text : String)
  /-- The answer is not of the expected form. -/
  | invalidAnswer (reason : String)
  /-- Any other fault. -/
  | other (text : String)
  deriving DecidableEq, Repr, Inhabited

/-- The message of a fault. -/
def ChatFault.message : ChatFault → String
  | .requestFailed reason => s!"Request failed: {reason}"
  | .refused status text => s!"API error ({status}): {text}"
  | .invalidAnswer reason => s!"Failed to parse response: {reason}"
  | .other text => text

/-- What should never happen. -/
inductive InternalFault where
  /-- A branch of a parallel module that left no result. -/
  | noResult (id : String) (branch : Nat)
  /-- Any other fault. -/
  | other (text : String)
  deriving DecidableEq, Repr, Inhabited

/-- The message of a fault. -/
def InternalFault.message : InternalFault → String
  | .noResult id branch => s!"Parallel '{id}' branch {branch} produced no result"
  | .other text => text

/-- A failure. -/
inductive Error where
  /-- A reference to a workflow that is not there. -/
  | unresolvedReference (id : String)
  /-- Workflows that refer to each other in a circle; the first one stands at both ends. -/
  | cyclicWorkflow (chain : List String)
  /-- A switch whose condition fits no case, without a default. -/
  | unmatchedCondition (name value : String)
  /-- A declared input that nothing is bound to. -/
  | unresolvedInput (input source : String)
  /-- A declared output that nothing was bound to. -/
  | missingOutput (name : String)
  /-- A tool that is not there. -/
  | toolNotFound (name : String)
  /-- A tool that failed. -/
  | tool (name text : String)
  /-- A text generation that failed. -/
  | chat (fault : ChatFault)
  /-- A leaf that failed. -/
  | leaf (fault : LeafFault)
  /-- An execution that broke off. -/
  | execution (text : String)
  /-- A run that took longer than it was given. -/
  | timeout (limit : Duration)
  /-- A specification that is at fault. -/
  | validation (fault : SpecFault)
  /-- A text that cannot be read. -/
  | read (fault : ReadFault)
  /-- Settings that are refused. -/
  | setting (fault : SettingFault)
  /-- What should never happen. -/
  | internal (fault : InternalFault)
  /-- A request without an answer. -/
  | http (reason : String)
  /-- A text that is not YAML. -/
  | yaml (reason : String)
  /-- A text that is not JSON. -/
  | json (reason : String)
  /-- A file that cannot be read. -/
  | file (reason : String)
  deriving DecidableEq, Repr, Inhabited

namespace Error

/-- The code of an error, the same for every error of one kind. -/
def code : Error → String
  | .unresolvedReference _ => "UNRESOLVED_REFERENCE"
  | .cyclicWorkflow _ => "CYCLIC_WORKFLOW"
  | .unmatchedCondition _ _ => "UNMATCHED_CONDITION"
  | .unresolvedInput _ _ => "UNRESOLVED_INPUT"
  | .missingOutput _ => "MISSING_OUTPUT"
  | .toolNotFound _ => "TOOL_NOT_FOUND"
  | .tool _ _ => "TOOL_ERROR"
  | .chat _ => "LLM_ERROR"
  | .leaf _ => "MODULE_ERROR"
  | .execution _ => "EXECUTION_ERROR"
  | .timeout _ => "TIMEOUT"
  | .validation _ => "VALIDATION_ERROR"
  | .read _ => "PARSE_ERROR"
  | .setting _ => "CONFIG_ERROR"
  | .internal _ => "INTERNAL_ERROR"
  | .http _ => "HTTP_ERROR"
  | .yaml _ => "YAML_ERROR"
  | .json _ => "JSON_ERROR"
  | .file _ => "IO_ERROR"

/-- The message of an error. -/
def message : Error → String
  | .unresolvedReference id => s!"Unresolved module reference: '{id}'"
  | .cyclicWorkflow chain => "Cyclic workflow reference: " ++ String.intercalate " -> " chain
  | .unmatchedCondition name value =>
    s!"Unmatched condition: '{name}' = {value} and no default branch"
  | .unresolvedInput input source => s!"Unresolved input '{input}' (looked up as '{source}')"
  | .missingOutput name => s!"Declared output '{name}' was never produced"
  | .toolNotFound name => s!"Tool not found: {name}"
  | .tool name text => s!"Tool '{name}' failed: {text}"
  | .chat fault => s!"LLM error: {fault.message}"
  | .leaf fault => s!"Module error: {fault.message}"
  | .execution text => s!"Execution error: {text}"
  | .timeout limit => s!"Execution timed out after {limit.text}"
  | .validation fault => s!"Validation error: {fault.message}"
  | .read fault => s!"Parse error: {fault.message}"
  | .setting fault => s!"Configuration error: {fault.message}"
  | .internal fault => s!"Internal error: {fault.message}"
  | .http reason => s!"HTTP error: {reason}"
  | .yaml reason => s!"YAML error: {reason}"
  | .json reason => s!"JSON error: {reason}"
  | .file reason => s!"IO error: {reason}"

/-- Whether an error is raised while specifications are turned into modules. -/
def isCompileTime : Error → Bool
  | .unresolvedReference _ | .cyclicWorkflow _ | .validation _ => true
  | _ => false

/-- Whether an error is raised by an external capability. -/
def isCapability : Error → Bool
  | .toolNotFound _ | .tool _ _ | .chat _ | .http _ => true
  | _ => false

/-- An error as a JSON value for machines. -/
def envelope (e : Error) : Json :=
  Json.ofMembers
    [("success", .boolean false),
      ("error", Json.ofMembers [("code", .string e.code), ("message", .string e.message)])]

/-- No error belongs to both classes. -/
theorem isCapability_eq_false_of_isCompileTime {e : Error} (h : e.isCompileTime = true) :
    e.isCapability = false := by
  cases e <;> simp_all [isCompileTime, isCapability]

end Error

end WorkflowEngine
