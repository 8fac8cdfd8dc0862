import WorkflowEngine.Run

/-!
# Tools

A tool is a named operation on arguments. A toolbox holds tools by name; a tool put into it replaces
one of the same name. Two tools are built in: one gives back its `value` or all its arguments, the
other puts its `text` into capital letters.
-/

namespace WorkflowEngine

/-- Arguments by name. -/
abbrev ToolArgs := Dictionary Payload

/-- A named operation. -/
structure Tool where
  /-- Name under which the tool is called. -/
  name : String
  /-- What the tool does, in words. -/
  description : String
  /-- The operation. -/
  call : ToolArgs → Run Payload

/-- Tools by name. -/
abbrev Toolbox := Ascending Tool Tool.name

namespace Tool

/-- A tool that takes no time. -/
def ofFunction (name : String) (f : ToolArgs → Except Error Payload) : Tool :=
  ⟨name, "", fun args => .ofExcept (f args)⟩

/-- Gives back the argument `value`, or all arguments as an object. -/
def echo : Tool where
  name := "echo"
  description := "Return the 'value' argument, or all arguments as an object"
  call args := .ofExcept (.ok ((args.get? "value").getD (.object args.toList)))

/-- Puts the argument `text` into capital letters. -/
def uppercase : Tool where
  name := "uppercase"
  description := "Uppercase the 'text' argument"
  call args :=
    match args.get? "text" with
    | some p => .ofExcept (.ok (.string (Text.toCapitals p.text)))
    | none => .fail (.tool "uppercase" "missing 'text' argument")

end Tool

namespace Toolbox

/-- The tools that are built in. -/
def builtin : Toolbox := .ofList [.echo, .uppercase]

/-- Looks a tool up and calls it. -/
def execute (tools : Toolbox) (name : String) (args : ToolArgs) : Run Payload :=
  match tools.find? name with
  | some tool => tool.call args
  | none => .fail (.toolNotFound name)

/-- The names of the tools with their descriptions. -/
def descriptions (tools : Toolbox) : List (String × String) :=
  tools.toList.map fun t => (t.name, t.description)

end Toolbox

end WorkflowEngine
