import WorkflowEngine.CommandLine.Command
import WorkflowEngine.Document
import WorkflowEngine.Settings
import WorkflowEngine.Validation

/-!
# Carrying out commands

A command reads files and variables of the environment and gives a reply: what it prints, and
whether and why it failed. Both are functions of the command's surroundings.
-/

namespace WorkflowEngine.CommandLine

/-- What a command draws on. -/
structure Surroundings where
  /-- The bytes of the file at a path. -/
  file : String → Option ByteArray
  /-- The bytes of the usual settings file. -/
  usualSettings : Option ByteArray
  /-- The value of a variable of the environment. -/
  lookup : String → Option String
  /-- Gets answers to requests. -/
  fetch : Fetch

/-- What comes of a command. -/
structure Reply where
  /-- What is printed. -/
  output : String
  /-- The error of a run that failed. -/
  report : Option Error
  /-- Why the command failed. -/
  failure : Option String

namespace Reply

/-- A command that printed something and succeeded. -/
def success (output : String) : Reply := ⟨output, none, none⟩

/-- A command that failed before it printed anything. -/
def failed (message : String) : Reply := ⟨"", none, some message⟩

end Reply

/-! ## Checking a document -/

/-- The texts of declarations, listed. -/
def listSpecs (specs : List ValueSpec) : String :=
  String.intercalate ", " (specs.map ValueSpec.text)

/-- The line for a module that compiled. -/
def signatureLine (m : Module) : String :=
  s!"{m.id} {m.type.name} ({listSpecs m.signature.input}) -> ({listSpecs m.signature.output})\n"

/-- The line for a specification that did not compile. -/
def failureLine (f : ModuleId × CompileFailure) : String := s!"✗ {f.1}: {f.2.message}\n"

/-- What is printed about a compiled registry. -/
def describeReport (r : CompileReport) : Reply :=
  let lines := r.table.toList.map signatureLine ++ r.failures.map failureLine
  match r.failures with
  | [] => .success (String.join lines ++ s!"\n✓ {r.table.size} module(s) compiled\n")
  | failures => ⟨String.join lines, none, some s!"{failures.length} module(s) failed to compile"⟩

/-- Checks a document and lists its modules. -/
def validate (c : Surroundings) (file : String) : Reply :=
  match WorkflowDocument.loadRegistry (c.file file) with
  | .error e => .failed e.message
  | .ok registry =>
    match registry.validate with
    | .error e => .failed e.message
    | .ok () => describeReport registry.compileAll

/-! ## Running a module -/

/-- The settings of a run. -/
def settingsOf (c : Surroundings) (path : Option String) : Except Error Settings :=
  match path with
  | some path => Settings.load path (c.file path) c.lookup
  | none => .ok (Settings.loadUsual c.usualSettings c.lookup)

/-- An input under the declaration of its name, of any type if there is none. -/
def readValue (declared : List ValueSpec) (input : String × String) : Except String Value :=
  let spec := (declared.find? fun s => s.name == input.1).getD (.required input.1 .any)
  match Payload.parseAs input.2 spec.type with
  | .ok p => .ok ⟨spec, p⟩
  | .error e => .error s!"Input '{input.1}': {e.message}"

/-- A value as it is printed. -/
def printedValue (v : Value) : Json :=
  Json.ofMembers
    [("name", .string v.name), ("type", .string v.spec.type.name), ("value", v.payload.toJson)]

/-- The engine of a run. -/
def engineOf (c : Surroundings) (s : Settings) (request : RunRequest) (table : ModuleTable) :
    Engine :=
  let e := Engine.ofSettings table s c.fetch
  { e with
    policy := if request.strict then .strict else e.policy
    timeout := (request.timeout.map Duration.ofSeconds).or e.timeout }

/-- What is printed about a run. -/
def describeRun (r : Run (List Value)) : Reply :=
  match r.outcome with
  | .ok outputs => .success ((Json.array (outputs.map printedValue)).wide ++ "\n")
  | .error e => ⟨"", some e, some e.message⟩

/-- Runs a module of a document. -/
def run (c : Surroundings) (request : RunRequest) : Reply :=
  let started : Except String (Run (List Value)) := do
    let settings ← (settingsOf c request.settings).mapError Error.message
    let registry ← (WorkflowDocument.loadRegistry (c.file request.file)).mapError Error.message
    let table ← (registry.resolver.compileMain request.main).mapError CompileFailure.message
    let engine := engineOf c settings request table
    match engine.modules.find? request.main with
    | none => throw s!"Module not found: {request.main}"
    | some m =>
      let input ← request.inputs.mapM (readValue m.signature.input)
      return engine.execute "" m input
  match started with
  | .ok r => describeRun r
  | .error message => .failed message

/-- Carries a command out. -/
def Command.reply (c : Surroundings) : Command → Reply
  | .validate file => CommandLine.validate c file
  | .run request => CommandLine.run c request

/-! ## Arguments -/

/-- The name and the version of the program. -/
def versionLine : String := "modflow 0.1.0\n"

/-- How the program is used. -/
def usage : String :=
  "Usage: modflow validate <FILE>\n" ++
    "       modflow run <FILE> --module <ID> [--input <NAME>=<TEXT>]... [--strict] " ++
      "[--timeout <SECONDS>] [--config <FILE>]\n"

/-- How the program ends. -/
structure Ending where
  /-- What the program says. -/
  reply : Reply
  /-- The code for the caller. -/
  code : UInt8

/-- What the program does with arguments. -/
def Ending.ofArgs (c : Surroundings) (args : List String) : Ending :=
  match Command.ofArgs args with
  | .error .help => ⟨.success usage, 0⟩
  | .error .version => ⟨.success versionLine, 0⟩
  | .error .misuse => ⟨.success "", 2⟩
  | .ok command =>
    let r := command.reply c
    ⟨r, if r.failure.isSome then 1 else 0⟩

end WorkflowEngine.CommandLine
