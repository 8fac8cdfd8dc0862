import WorkflowEngine.Engine
import WorkflowEngine.File
import WorkflowEngine.Toml.Part

/-!
# Settings

Settings choose the policy for inputs, the limit of time, and the chat client. They come from a
file, of which every part may be absent, and from variables of the environment, which win. A
variable whose text does not fit is passed over, and so is the usual file where no file is chosen.
-/

namespace WorkflowEngine

open Decoding

/-- The kinds of chat client. -/
inductive Provider where
  /-- The client that repeats the prompt. -/
  | mock
  /-- The client of a service. -/
  | http
  deriving DecidableEq, Repr, Inhabited

namespace Provider

/-- The name of a provider. -/
def name : Provider → String
  | .mock => "mock"
  | .http => "http"

/-- The provider of a name. -/
def ofName? : String → Option Provider
  | "mock" => some .mock
  | "http" => some .http
  | _ => none

/-- The provider that a text names, in letters of either case. -/
def read (text : String) : Except Error Provider :=
  let name := Text.toSmall (Text.trim text)
  match ofName? name with
  | some provider => .ok provider
  | none => .error (.setting (.unknownProvider name))

/-- The words for providers. -/
def words : List (Word Provider) := [⟨["mock"], .mock⟩, ⟨["http"], .http⟩]

end Provider

/-- The words for policies. -/
def InputPolicy.words : List (Word InputPolicy) := [⟨["lenient"], .lenient⟩, ⟨["strict"], .strict⟩]

/-- Settings of the engine. -/
structure EngineSettings where
  /-- What to do with inputs that cannot be resolved. -/
  policy : InputPolicy
  /-- How many seconds a run may take; none means any number. -/
  timeoutSeconds : Nat
  deriving DecidableEq, Repr

namespace EngineSettings

/-- What holds unless it is set. -/
def usual : EngineSettings := ⟨.lenient, 0⟩

instance : Inhabited EngineSettings := ⟨usual⟩

/-- How long a run may take. -/
def timeout (s : EngineSettings) : Option Duration :=
  if s.timeoutSeconds = 0 then none else some (.ofSeconds s.timeoutSeconds)

/-- Decodes settings of the engine. -/
def read {σ : Type} [Source σ] (s : σ) : Except Failure EngineSettings :=
  readRecord
    [⟨"input_policy", false, fun v r => return { r with policy := ← readWord InputPolicy.words v }⟩,
      ⟨"timeout_seconds", false, fun v r => return { r with timeoutSeconds := ← Source.natural v }⟩]
    false usual s

end EngineSettings

/-- Settings of the chat client. -/
structure ChatSettings where
  /-- Which client to use. -/
  provider : Provider
  /-- The service to ask. -/
  service : ChatClient.Service
  /-- How many seconds a request may take. -/
  timeoutSeconds : Nat

namespace ChatSettings

/-- What holds unless it is set. -/
def usual : ChatSettings := ⟨.mock, ⟨ChatClient.defaultEndpoint, none, none, none⟩, 30⟩

instance : Inhabited ChatSettings := ⟨usual⟩

/-- The chosen client. -/
def client (s : ChatSettings) (fetch : Fetch) : ChatClient :=
  match s.provider with
  | .mock => .mock
  | .http => .service s.service fetch

/-- Decodes settings of the chat client. -/
def read {σ : Type} [Source σ] (s : σ) : Except Failure ChatSettings :=
  let optionalText (v : σ) : Except Failure (Option String) :=
    (Source.optional v).mapM Source.text
  readRecord
    [⟨"provider", false, fun v r => return { r with provider := ← readWord Provider.words v }⟩,
      ⟨"endpoint", false, fun v r =>
        return { r with service := { r.service with endpoint := ← Source.text v } }⟩,
      ⟨"model", false, fun v r =>
        return { r with service := { r.service with model := ← optionalText v } }⟩,
      ⟨"system", false, fun v r =>
        return { r with service := { r.service with system := ← optionalText v } }⟩,
      ⟨"temperature", false, fun v r => do
        let temperature ← (Source.optional v).mapM Source.single
        return { r with service := { r.service with temperature := temperature } }⟩,
      ⟨"timeout_seconds", false, fun v r => return { r with timeoutSeconds := ← Source.natural v }⟩]
    false usual s

end ChatSettings

/-- All settings. -/
structure Settings where
  /-- Settings of the engine. -/
  engine : EngineSettings
  /-- Settings of the chat client. -/
  chat : ChatSettings

namespace Settings

/-- What holds unless it is set. -/
def usual : Settings := ⟨.usual, .usual⟩

instance : Inhabited Settings := ⟨usual⟩

/-- Decodes settings. -/
def read {σ : Type} [Source σ] (s : σ) : Except Failure Settings :=
  readRecord
    [⟨"engine", false, fun v r => return { r with engine := ← EngineSettings.read v }⟩,
      ⟨"llm", false, fun v r => return { r with chat := ← ChatSettings.read v }⟩]
    false usual s

/-- The value of a setting that a variable gives, if its text fits. -/
def given {α : Type} (text : Option String) (read : String → Option α) (usual : α) : α :=
  (text.bind read).getD usual

/-- Settings with those that the environment gives. -/
def override (s : Settings) (lookup : String → Option String) : Settings where
  engine :=
    { policy :=
        given (lookup "MODFLOW_INPUT_POLICY") (fun t => (InputPolicy.read t).toOption)
          s.engine.policy
      timeoutSeconds :=
        given (lookup "MODFLOW_TIMEOUT_SECONDS") Text.readNat64 s.engine.timeoutSeconds }
  chat :=
    { provider :=
        given (lookup "MODFLOW_LLM_PROVIDER") (fun t => (Provider.read t).toOption)
          s.chat.provider
      service :=
        { s.chat.service with
          endpoint := (lookup "MODFLOW_LLM_ENDPOINT").getD s.chat.service.endpoint
          model := (lookup "MODFLOW_LLM_MODEL").or s.chat.service.model }
      timeoutSeconds :=
        given (lookup "MODFLOW_LLM_TIMEOUT_SECONDS") Text.readNat64 s.chat.timeoutSeconds }

/-- The settings of a file. -/
def ofFile (path : String) (bytes : Option ByteArray) : Except Error Settings := do
  let text ← File.text bytes
  (Toml.decodeText read text).mapError fun f => .setting (.invalidFile path f.message)

/-- The settings of a chosen file and of the environment. -/
def load (path : String) (bytes : Option ByteArray) (lookup : String → Option String) :
    Except Error Settings :=
  (ofFile path bytes).map fun s => s.override lookup

/-- The settings of the usual file, as far as it can be read, and of the environment. -/
def loadUsual (bytes : Option ByteArray) (lookup : String → Option String) : Settings :=
  ((ofFile "" bytes).toOption.getD usual).override lookup

end Settings

/-- An engine with given settings and the built-in tools. -/
def Engine.ofSettings (modules : ModuleTable) (s : Settings) (fetch : Fetch) : Engine :=
  { Engine.new modules fetch with
    client := s.chat.client fetch
    policy := s.engine.policy
    timeout := s.engine.timeout }

end WorkflowEngine
