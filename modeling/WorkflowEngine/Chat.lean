import WorkflowEngine.Run
import WorkflowEngine.Json.Syntax

/-!
# Text generation

A chat client generates a text for a prompt. One client makes its answer up from the prompt; the
other asks a service over HTTP, sending the prompt as a message and taking the content of the
answer.
-/

namespace WorkflowEngine

/-- Something that generates texts. -/
structure ChatClient where
  /-- Name of the client. -/
  name : String
  /-- The text for a prompt. -/
  generate : String → Run String

/-- A way to get an answer to a request. -/
abbrev Fetch := Http.Request → Run Http.Response

/-- A fetch that never gets an answer. -/
def Fetch.unreachable : Fetch := fun _ => .fail (.http "no answer")

namespace ChatClient

/-- The client that repeats the prompt. -/
def mock : ChatClient := ⟨"mock", fun prompt => .ofExcept (.ok ("Mock response for: " ++ prompt))⟩

/-- The settings of a chat service. -/
structure Service where
  /-- Address of the service. -/
  endpoint : String
  /-- Model to use, if not the service's own choice. -/
  model : Option String
  /-- Instructions that stand before every prompt. -/
  system : Option String
  /-- How freely texts are generated, as a number of 32 bits. -/
  temperature : Option Number.Floating

/-- The address of a service unless another is given. -/
def defaultEndpoint : String := "http://localhost:3000/api/chat"

/-- A number of 32 bits in its shortest decimal form, as a JSON value. -/
def temperatureJson : Number.Floating → Json
  | .finite negative m =>
    let d := Number.single.shortest m
    let digits := (Nat.toDigits 10 d.digits).length
    match Number.double.ofDecimal d.digits digits d.exponent with
    | some m => .number (.fraction negative m)
    | none => .null
  | _ => .null

/-- What is sent for a prompt. -/
def Service.message (s : Service) (prompt : String) : Json :=
  let optional (name : String) (v : Option Json) : List (String × Json) :=
    v.toList.map fun v => (name, v)
  Json.ofMembers <| ("message", .string prompt) :: optional "model" (s.model.map .string) ++
    optional "system" (s.system.map .string) ++
    optional "temperature" (s.temperature.map temperatureJson)

/-- The content of an answer: the one member of that name, or the one item of a list. -/
def content? : Json.Syntax → Option String
  | .object members =>
    if members.all fun m => m.1.isSome then
      match members.filter fun m => m.1 == some "content" with
      | [(_, .string content)] => content
      | _ => none
    else none
  | .array [.string content] => content
  | _ => none

/-- The text that an answer carries. -/
def readAnswer (r : Http.Response) : Except Error String :=
  if Http.isSuccess r.status then
    match (Json.Syntax.ofText? r.body).bind content? with
    | some content => .ok content
    | none => .error (.chat (.invalidAnswer "no content"))
  else .error (.chat (.refused (Http.statusLine r.status) r.body))

/-- The client of a service. -/
def service (s : Service) (fetch : Fetch) : ChatClient where
  name := "http"
  generate prompt :=
    let request : Http.Request := ⟨"POST", s.endpoint, some (s.message prompt)⟩
    let sent := (fetch request).closing (.requested request)
    (sent.mapError fun e => .chat (.requestFailed e.message)).andThen fun answer =>
      .ofExcept (readAnswer answer)

end ChatClient

end WorkflowEngine
