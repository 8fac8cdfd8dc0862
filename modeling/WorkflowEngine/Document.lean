import WorkflowEngine.File
import WorkflowEngine.Registry
import WorkflowEngine.Spec.Decoding
import WorkflowEngine.Yaml.Part

/-!
# Workflow documents

A workflow document is a YAML text with a list of modules. A document that lacks a required field is
told apart from documents that are wrong in any other way, by the words of the failure.
-/

namespace WorkflowEngine

open Decoding

namespace WorkflowDocument

/-- What follows the first occurrence of a text. -/
def after? (marker : List Char) : List Char → Option (List Char)
  | [] => if marker.isEmpty then some [] else none
  | c :: rest =>
    if marker.isPrefixOf (c :: rest) then some ((c :: rest).drop marker.length)
    else after? marker rest

/-- The name of the missing field that a message speaks of. -/
def missingField? (message : String) : Option String :=
  (after? "missing field \x60".toList message.toList).bind fun rest =>
    if rest.contains '\x60' then some (String.ofList (rest.takeWhile (· != '\x60'))) else none

/-- The error of a document that cannot be decoded. -/
def faultOf (f : Failure) : ReadFault :=
  match missingField? f.message with
  | some name => .missingField name
  | none => .invalidDocument f.message

/-- The specifications of a document. -/
def parse (text : String) : Except Error (List ModuleSpec) :=
  if (Text.trim text).isEmpty then .error (.read .emptyDocument)
  else match Yaml.readText readDocument text with
    | .error f => .error (.read (faultOf f))
    | .ok [] => .error (.read .noModules)
    | .ok specs => .ok specs

/-- The specifications of a document in a file; the bytes are absent if the file cannot be read. -/
def parseFile (bytes : Option ByteArray) : Except Error (List ModuleSpec) := do
  parse (← File.text bytes)

/-- The registry of the specifications of a document in a file. -/
def loadRegistry (bytes : Option ByteArray) : Except Error Registry := do
  Registry.ofSpecs (← parseFile bytes)

end WorkflowDocument

end WorkflowEngine
