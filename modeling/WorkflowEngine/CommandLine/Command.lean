import WorkflowEngine.CommandLine.Grammar
import WorkflowEngine.Signature
import WorkflowEngine.Text.Integer

/-!
# Commands

One command checks a document and lists the modules that compile, the other runs a module of a
document.
-/

namespace WorkflowEngine.CommandLine

/-- What a run is asked to do. -/
structure RunRequest where
  /-- Path of the document. -/
  file : String
  /-- Name of the module to run. -/
  main : ModuleId
  /-- Names and texts of inputs. -/
  inputs : List (String × String)
  /-- Whether every declared input has to be resolved. -/
  strict : Bool
  /-- How many seconds the run may take. -/
  timeout : Option Nat
  /-- Path of the settings, if not the usual one. -/
  settings : Option String
  deriving DecidableEq, Repr

/-- A command. -/
inductive Command where
  /-- Check the document at a path. -/
  | validate (file : String)
  /-- Run a module. -/
  | run (request : RunRequest)
  deriving DecidableEq, Repr

/-! ## Arguments -/

/-- A single argument is given once; `read` says what its text means. -/
def once {α : Type} (given : Option α) (read : String → Option α) (text : String) :
    Except Stop (Option α) :=
  match given, read text with
  | none, some a => .ok (some a)
  | _, _ => .error .misuse

/-- A path, which is not empty. -/
def readPath (text : String) : Option String := if text.isEmpty then none else some text

/-- An input: a name and a text with an equals sign between them, the first one counting. -/
def readInput (text : String) : Option (String × String) :=
  let (name, rest) := text.toList.span (· != '=')
  match rest with
  | [] => none
  | _ :: value => some (String.ofList name, String.ofList value)

/-- The option that asks for help. -/
def helpOption {δ : Type} : CommandOption δ := ⟨"help", some 'h', .alone fun _ => .error .help⟩

/-- The arguments of a check: the path of the document. -/
def validateGrammar : Grammar (Option String) where
  options := [helpOption]
  positional text file := once file readPath text

/-- The arguments of a run gathered so far. -/
structure RunDraft where
  /-- Path of the document. -/
  file : Option String
  /-- Name of the module to run. -/
  main : Option ModuleId
  /-- Names and texts of inputs. -/
  inputs : List (String × String)
  /-- Whether every declared input has to be resolved. -/
  strict : Bool
  /-- How many seconds the run may take. -/
  timeout : Option Nat
  /-- Path of the settings. -/
  settings : Option String

/-- The arguments of a run. -/
def runGrammar : Grammar RunDraft where
  options :=
    [helpOption,
      ⟨"module", some 'm', .valued fun text d => return { d with main := ← once d.main some text }⟩,
      ⟨"input", some 'i', .valued fun text d =>
        match readInput text with
        | some i => .ok { d with inputs := d.inputs ++ [i] }
        | none => .error .misuse⟩,
      ⟨"strict", none, .alone fun d =>
        if d.strict then .error .misuse else .ok { d with strict := true }⟩,
      ⟨"timeout", none, .valued fun text d =>
        return { d with timeout := ← once d.timeout Text.readNat64 text }⟩,
      ⟨"config", none, .valued fun text d =>
        return { d with settings := ← once d.settings readPath text }⟩]
  positional text d := return { d with file := ← once d.file readPath text }

/-- The request of a complete draft. -/
def RunDraft.request? (d : RunDraft) : Option RunRequest := do
  return ⟨← d.file, ← d.main, d.inputs, d.strict, d.timeout, d.settings⟩

/-- What must be there. -/
def required {α : Type} : Option α → Except Stop α
  | some a => .ok a
  | none => .error .misuse

/-- The names of the commands, help included. -/
def commandNames : List String := ["validate", "run", "help"]

/-- The command that arguments give. -/
def Command.ofArgs : List String → Except Stop Command
  | [] => .error .misuse
  | arg :: rest =>
    match Form.of arg with
    | .long "help" none => .error .help
    | .long "version" none => .error .version
    | .short ('h' :: _) => .error .help
    | .short ('V' :: _) => .error .version
    | .plain =>
      match arg with
      | "validate" => do return .validate (← required (← validateGrammar.read false rest none))
      | "run" => do
        let d ← runGrammar.read false rest ⟨none, none, [], false, none, none⟩
        return .run (← required d.request?)
      | "help" =>
        match rest with
        | [] => .error .help
        | [name] => .error (if name ∈ commandNames then .help else .misuse)
        | _ => .error .misuse
      | _ => .error .misuse
    | _ => .error .misuse

end WorkflowEngine.CommandLine
