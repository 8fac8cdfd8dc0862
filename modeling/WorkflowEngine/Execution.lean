import WorkflowEngine.Context
import WorkflowEngine.Http.Url

/-!
# Execution

What each kind of module does when it runs. Composites resolve the inputs of a child, invoke it, and
gather its outputs; leaves render a prompt, call a tool, fetch an address or follow a path through a
JSON value. The behaviour of a module is defined by recursion on it, from the behaviours of its
children.
-/

namespace WorkflowEngine

/-! ## Inputs of a child -/

/-- The name under which an input is looked up. -/
def sourceName (mapping : Dictionary String) (spec : ValueSpec) : String :=
  (mapping.get? spec.name).getD spec.name

/-- The inputs of a child, in the order of their declarations: each is what is bound to its source.
An input without a value is left out, or under the strict policy fails unless it is optional. -/
def resolveInputs (child : ModuleId) (mapping : Dictionary String) (policy : InputPolicy)
    (available : ValueSet) : List ValueSpec → Except Error (List Value)
  | [] => .ok []
  | spec :: rest =>
    let source := sourceName mapping spec
    match available.get? source with
    | some v => (resolveInputs child mapping policy available rest).map (v.rebind spec :: ·)
    | none =>
      if !spec.optional && policy.isStrict then
        .error (.unresolvedInput (child ++ "." ++ spec.name) source)
      else resolveInputs child mapping policy available rest

/-! ## Templates -/

namespace Template

/-- Replaces every occurrence of a pattern, from the left and without overlaps, in what is left of a
text after `skip` characters. -/
def replaceFrom (pattern replacement : List Char) (skip : Nat) : List Char → List Char
  | [] => []
  | c :: rest =>
    match skip with
    | skip + 1 => replaceFrom pattern replacement skip rest
    | 0 =>
      if pattern.isPrefixOf (c :: rest) then
        replacement ++ replaceFrom pattern replacement (pattern.length - 1) rest
      else c :: replaceFrom pattern replacement 0 rest

/-- Replaces every occurrence of a pattern, from the left and without overlaps. -/
def replaceAll (pattern replacement text : List Char) : List Char :=
  replaceFrom pattern replacement 0 text

/-- How a template refers to a name. -/
def placeholder (name : String) : List Char := '$' :: '\x7b' :: name.toList ++ ['\x7d']

/-- Puts the text of a value in place of its name. -/
def fill (text : List Char) (v : Value) : List Char :=
  replaceAll (placeholder v.name) v.payload.text.toList text

/-- Puts the declared values into a template, one after the other in the order of the input. What
has been put in takes part in the replacements that follow. -/
def render (declared : List ValueSpec) (template : String) (input : List Value) : String :=
  let used := input.filter fun v => declared.any fun s => s.name == v.name
  String.ofList (used.foldl fill template.toList)

end Template

/-! ## Paths -/

/-- The parts of a path between its points, empty ones left out. -/
def pathSegments (path : String) : List String :=
  ((Http.Url.splitAt '.' path.toList).filter fun s => !s.isEmpty).map String.ofList

/-- One step down: a member by its name, an item by its number. -/
def Json.child? (v : Json) (segment : String) : Option Json :=
  match v with
  | .object _ => v.member? segment
  | .array items => (Text.readNat64 segment).bind fun i => items[i]?
  | _ => none

/-- What stands at a path. -/
def Json.lookup? (v : Json) (path : String) : Option Json :=
  (pathSegments path).foldlM Json.child? v

/-! ## Behaviours -/

/-- What a composite knows of a child: its interface and its behaviour. -/
structure Executable where
  /-- Name of the module. -/
  id : ModuleId
  /-- Class of the module. -/
  type : ModuleType
  /-- Complete signature of the module. -/
  signature : Signature
  /-- What the module does with an input. -/
  run : List Value → Run (List Value)

namespace Executable

/-- Runs a child on an input and puts its end into the log. -/
def invoke (child : Executable) (mapping : Dictionary String) (available : ValueSet)
    (input : List Value) : Run (List Value) :=
  (child.run input).closing fun outcome => .invoked
    { child := child.id
      type := child.type
      declared := child.signature.input
      mapping := mapping
      available := available
      input := input
      status := .ofOutcome outcome }

/-- Resolves the inputs of a child and runs it. -/
def resolveAndInvoke (policy : InputPolicy) (mapping : Dictionary String) (available : ValueSet)
    (child : Executable) : Run (List Value) :=
  (Run.ofExcept
    (resolveInputs child.id mapping policy available child.signature.input)).andThen
      (child.invoke mapping available)

/-! ### Sequences -/

/-- Runs steps in order, each drawing on the input and on what the steps before it gave. -/
def runSteps (policy : InputPolicy) : List (Step Executable) → ValueSet → Run ValueSet
  | [], current => .ofExcept (.ok current)
  | step :: rest, current =>
    (step.child.resolveAndInvoke policy step.mapping current).andThen fun outputs =>
      runSteps policy rest (current.mergeAll outputs)

/-- The declared outputs among the values gathered; under the strict policy none may be missing. -/
def gatherOutputs (id : ModuleId) (policy : InputPolicy) (declared : List ValueSpec)
    (current : ValueSet) : Except Error (List Value) :=
  match policy, current.missing declared with
  | .strict, name :: _ => .error (.missingOutput (id ++ "." ++ name))
  | _, _ => .ok (current.project declared)

/-- The behaviour of a sequence. -/
def runSequential (id : ModuleId) (signature : Signature) (policy : InputPolicy)
    (steps : List (Step Executable)) (input : List Value) : Run (List Value) :=
  (runSteps policy steps ⟨input⟩).andThen fun current =>
    .ofExcept (gatherOutputs id policy signature.output current)

/-! ### Fan-outs -/

/-- Resolves the inputs of all branches; the first branch that fails counts. -/
def resolveBranches (policy : InputPolicy) (available : ValueSet) :
    List Executable → Except Error (List (Executable × List Value))
  | [] => .ok []
  | branch :: rest => do
    let input ← resolveInputs branch.id .empty policy available branch.signature.input
    let rest ← resolveBranches policy available rest
    return (branch, input) :: rest

/-- The results by the places of their branches, in whatever order they arrived. -/
def slots {α : Type} (count : Nat) (arrivals : List (Nat × α)) : List (Option α) :=
  arrivals.foldl (fun slots a => slots.set a.1 (some a.2)) (List.replicate count none)

/-- The outputs of all branches in the order of the branches, from the branch at a place on; the
first branch that failed counts. -/
def joinFrom (id : ModuleId) (place : Nat) :
    List (Option (Except Error (List Value))) → Except Error (List Value)
  | [] => .ok []
  | some (.ok outputs) :: rest => (joinFrom id (place + 1) rest).map (outputs ++ ·)
  | some (.error e) :: _ => .error e
  | none :: _ => .error (.internal (.noResult id place))

/-- The behaviour of a fan-out. -/
def runParallel (id : ModuleId) (signature : Signature) (policy : InputPolicy)
    (branches : List Executable) (input : List Value) : Run (List Value) :=
  let available : ValueSet := ⟨input⟩
  (Run.ofExcept (resolveBranches policy available branches)).andThen fun ready =>
    (Run.together (ready.map fun b => b.1.invoke .empty available b.2)).andThen fun arrivals =>
      .ofExcept <| (joinFrom id 0 (slots branches.length arrivals)).map fun outputs =>
        outputs.filter fun v => signature.declaresOutput v.name

/-! ### Switches -/

/-- The branch that a payload selects: the case of an equal key, else the fallback. -/
def select {α : Type} (cases : List (Case α)) (fallback : Option α) (p : Payload) : Option α :=
  ((cases.find? fun c => c.key = p).map Case.child).or fallback

/-- The behaviour of a switch. A condition that nothing is bound to counts as no content. -/
def runSwitch (signature : Signature) (policy : InputPolicy) (condition : String)
    (cases : List (Case Executable)) (fallback : Option Executable) (input : List Value) :
    Run (List Value) :=
  let available : ValueSet := ⟨input⟩
  let p := ((available.get? condition).map Value.payload).getD .null
  match select cases fallback p with
  | none => .fail (.unmatchedCondition condition p.text)
  | some branch =>
    (branch.resolveAndInvoke policy .empty available).andThen fun outputs =>
      .ofExcept (.ok ((ValueSet.mk outputs).project signature.output))

/-! ### Leaves -/

/-- The one output of a leaf. -/
def produce (signature : Signature) (p : ValueSpec → Payload) : List Value :=
  signature.output.map fun spec => ⟨spec, p spec⟩

/-- The behaviour of a text generation. -/
def runLlm (signature : Signature) (client : ChatClient) (template : String) (input : List Value) :
    Run (List Value) :=
  let prompt := Template.render signature.input template input
  ((client.generate prompt).closing (.generated prompt)).andThen fun text =>
    .ofExcept (.ok (produce signature fun _ => .string text))

/-- The inputs of a tool as arguments: no content is passed as an empty text. -/
def toolArgs (input : List Value) : ToolArgs :=
  .ofList <| input.map fun v => (v.name, if v.payload.isNull then .string "" else v.payload)

/-- The error of a tool call: a tool's own error stays, every other one is named after the tool. -/
def toolError (name : String) : Error → Error
  | .tool tool text => .tool tool text
  | e => .tool name e.message

/-- The behaviour of a tool call. -/
def runTool (signature : Signature) (tools : Toolbox) (name : String) (input : List Value) :
    Run (List Value) :=
  match tools.find? name with
  | none => .fail (.toolNotFound name)
  | some tool =>
    let args := toolArgs input
    (((tool.call args).closing (.called name args)).mapError (toolError name)).andThen fun p =>
      .ofExcept (.ok (produce signature fun _ => p))

/-- The text bound to a name. -/
def textInput? (input : ValueSet) (name : String) : Option String :=
  (input.get? name).bind fun v => v.payload.asText?

/-- The request of a fetch. -/
def httpRequest (id : ModuleId) (input : ValueSet) : Except Error Http.Request := do
  let some url := textInput? input "url" | throw (.leaf (.missingInput id "url"))
  let method := match textInput? input "method" with
    | some m => if (Text.trim m).isEmpty then "GET" else m
    | none => "GET"
  match Http.Url.scheme url with
  | .error fault => throw (.leaf (.invalidUrl url fault.message))
  | .ok scheme =>
    if scheme ≠ "http" ∧ scheme ≠ "https" then throw (.leaf (.unsupportedScheme scheme))
  match Http.method? method with
  | some method => return ⟨method, url, none⟩
  | none => throw (.leaf (.invalidMethod method))

/-- The behaviour of a fetch. -/
def runHttp (id : ModuleId) (signature : Signature) (fetch : Fetch) (input : List Value) :
    Run (List Value) :=
  (Run.ofExcept (httpRequest id ⟨input⟩)).andThen fun request =>
    ((fetch request).closing (.requested request)).andThen fun answer =>
      let produced : ValueSet :=
        ⟨[.ofInteger "status" (.ofNat answer.status), .ofText "body" answer.body]⟩
      .ofExcept (.ok (produced.project signature.output))

/-- The JSON value that an extraction works on. -/
def extractionInput (id : ModuleId) (input : ValueSet) : Except Error Json :=
  match (input.get? "json").map Value.payload with
  | some (.string text) => Payload.readJson text
  | some (.object members) => .ok (Payload.object members).toJson
  | some (.list items) => .ok (Payload.list items).toJson
  | _ => .error (.leaf (.missingInput id "json"))

/-- What an extraction gives for an output: what stands at the path, brought closer to the declared
type, or an empty text. -/
def extracted (document : Json) (path : String) (spec : ValueSpec) : Payload :=
  match document.lookup? path with
  | some found => (Payload.ofJson found).coerce spec.type
  | none => .string ""

/-- The behaviour of an extraction. -/
def runExtract (id : ModuleId) (signature : Signature) (path : String) (input : List Value) :
    Run (List Value) :=
  (Run.ofExcept (extractionInput id ⟨input⟩)).andThen fun document =>
    .ofExcept (.ok (produce signature (extracted document path)))

/-! ### Modules -/

/-- The behaviour of a kind of module, given those of its children. -/
def runKind (c : Context) (id : ModuleId) (signature : Signature) :
    Kind Executable Executable → List Value → Run (List Value)
  | .sequential steps => runSequential id signature c.policy steps
  | .parallel branches => runParallel id signature c.policy branches
  | .switch condition cases fallback => runSwitch signature c.policy condition cases fallback
  | .subWorkflow target => target.run
  | .llm template => runLlm signature c.client template
  | .tool name => runTool signature c.tools name
  | .http => runHttp id signature c.fetch
  | .jsonExtract path => runExtract id signature path

/-- A module ready to run, given its children. -/
def ofKind (c : Context) (id : ModuleId) (signature : Signature)
    (kind : Kind Executable Executable) : Executable :=
  ⟨id, kind.type, signature, runKind c id signature kind⟩

section OfKind

variable (c : Context) (id : ModuleId) (signature : Signature) (kind : Kind Executable Executable)

@[simp] theorem id_ofKind : (ofKind c id signature kind).id = id := rfl

@[simp] theorem type_ofKind : (ofKind c id signature kind).type = kind.type := rfl

@[simp] theorem signature_ofKind : (ofKind c id signature kind).signature = signature := rfl

@[simp] theorem run_ofKind : (ofKind c id signature kind).run = runKind c id signature kind := rfl

end OfKind

end Executable

namespace Module

/-- A module ready to run in given surroundings. -/
def executable (c : Context) (m : Module) : Executable := m.fold (Executable.ofKind c)

/-- Runs a module on an input. -/
def run (c : Context) (m : Module) (input : List Value) : Run (List Value) :=
  (m.executable c).run input

end Module

end WorkflowEngine
