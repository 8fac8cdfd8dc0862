import WorkflowEngine.Spec
import WorkflowEngine.Module

/-!
# Specifications as JSON values

The written form of a specification: its name, its signature and, beside them, its type and the
fields of its kind. What has its usual value is left out: a declaration that is not optional, an
empty mapping, an empty set of dependencies, a switch without fallback.
-/

namespace WorkflowEngine

/-- The kinds of specification by the words that stand for them. -/
inductive KindTag where
  /-- Steps one after the other. -/
  | sequential
  /-- Branches at the same time. -/
  | parallel
  /-- One of several branches. -/
  | switch
  /-- Another workflow. -/
  | subWorkflow
  /-- A text generation. -/
  | llm
  /-- A tool call. -/
  | tool
  /-- A fetch. -/
  | http
  /-- An extraction. -/
  | jsonExtract
  deriving DecidableEq, Repr, Inhabited

namespace KindTag

/-- Every kind. -/
def all : List KindTag :=
  [.sequential, .parallel, .switch, .subWorkflow, .llm, .tool, .http, .jsonExtract]

/-- The word for a kind. -/
def name : KindTag → String
  | .sequential => "sequential"
  | .parallel => "parallel"
  | .switch => "switch"
  | .subWorkflow => "sub_workflow"
  | .llm => "llm"
  | .tool => "tool"
  | .http => "http"
  | .jsonExtract => "json_extract"

end KindTag

/-- The word that stands for a kind. -/
def Kind.tag {ρ α : Type} : Kind ρ α → KindTag
  | .sequential _ => .sequential
  | .parallel _ => .parallel
  | .switch _ _ _ => .switch
  | .subWorkflow _ => .subWorkflow
  | .llm _ => .llm
  | .tool _ => .tool
  | .http => .http
  | .jsonExtract _ => .jsonExtract

/-- A member that is left out unless a condition holds. -/
def memberIf (present : Bool) (name : String) (v : Json) : List (String × Json) :=
  if present then [(name, v)] else []

/-- A declaration as a JSON value. -/
def ValueSpec.toJson (s : ValueSpec) : Json :=
  Json.ofMembers <| [("name", .string s.name), ("type", .string s.type.name)] ++
    memberIf s.optional "optional" (.boolean true)

/-- A value as a JSON value. -/
def Value.toJson (v : Value) : Json :=
  Json.ofMembers [("spec", v.spec.toJson), ("payload", v.payload.toJson)]

/-- A signature as a JSON value. -/
def Signature.toJson (s : Signature) : Json :=
  Json.ofMembers <|
    [("input", .array (s.input.map ValueSpec.toJson)),
      ("output", .array (s.output.map ValueSpec.toJson))] ++
    memberIf (!s.dependencies.isEmpty) "dependencies" (.ofTexts s.dependencies.toList)

/-- A step as a JSON value, given its child as one. -/
def Step.toJson (s : Step Json) : Json :=
  Json.ofMembers <| ("module", s.child) ::
    memberIf (!s.mapping.isEmpty) "mapping"
      (Json.ofMembers (s.mapping.toList.map fun e => (e.1, .string e.2)))

/-- A case as a JSON value, given its child as one. -/
def Case.toJson (c : Case Json) : Json :=
  Json.ofMembers [("value", c.key.toJson), ("module", c.child)]

/-- The fields of a kind, given its children as JSON values. -/
def Kind.fields : Kind ModuleId Json → List (String × Json)
  | .sequential steps => [("steps", .array (steps.map Step.toJson))]
  | .parallel branches => [("branches", .array branches)]
  | .switch condition cases fallback =>
    [("condition", .string condition), ("cases", .array (cases.map Case.toJson))] ++
      fallback.toList.map fun v => ("default", v)
  | .subWorkflow target => [("target", .string target)]
  | .llm template => [("template", .string template)]
  | .tool name => [("tool", .string name)]
  | .http => []
  | .jsonExtract path => [("field", .string path)]

/-- The type and the fields of a kind. -/
def Kind.members (k : Kind ModuleId Json) : List (String × Json) :=
  ("type", .string k.tag.name) :: k.fields

namespace ModuleSpec

/-- The written form of a module, given those of its children. -/
def nodeJson (id : ModuleId) (signature : Signature) (k : Kind ModuleId Json) : Json :=
  Json.ofMembers <| ("id", .string id) :: ("signature", signature.toJson) :: k.members

/-- A specification as a JSON value. -/
def toJson : ModuleSpec → Json := fold nodeJson

end ModuleSpec

/-- The part of a specification that depends on its kind, as a JSON value. -/
def Kind.toJson (k : Kind ModuleId ModuleSpec) : Json :=
  Json.ofMembers (k.map (fun r => r) ModuleSpec.toJson).members

/-- The interface of a compiled module as a JSON value. -/
def Module.interfaceJson (m : Module) : Json :=
  Json.ofMembers
    [("id", .string m.id), ("type", .string m.type.name), ("signature", m.signature.toJson)]

end WorkflowEngine
