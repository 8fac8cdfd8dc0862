import WorkflowEngine.CommandLine.Reply

/-!
# The program

Reads the arguments, the files and the environment, and prints the reply. Requests get no answers:
there is no way to the network from here.
-/

namespace WorkflowEngine.Program

open CommandLine

/-- The variables of the environment that settings draw on. -/
def variableNames : List String :=
  ["MODFLOW_INPUT_POLICY", "MODFLOW_TIMEOUT_SECONDS", "MODFLOW_LLM_PROVIDER",
    "MODFLOW_LLM_ENDPOINT", "MODFLOW_LLM_MODEL", "MODFLOW_LLM_TIMEOUT_SECONDS"]

/-- The values of variables that are set. -/
def readVariables (names : List String) : IO (List (String × String)) :=
  names.filterMapM fun name => return (← IO.getEnv name).map fun text => (name, text)

/-- The bytes of a file that can be read. -/
def readBytes (path : String) : IO (Option ByteArray) := do
  try
    return some (← IO.FS.readBinFile path)
  catch _ =>
    return none

/-- The directory of settings. -/
def settingsDirectory : IO String := do
  match ← IO.getEnv "XDG_CONFIG_HOME", ← IO.getEnv "HOME" with
  | some directory, home =>
    if directory.startsWith "/" then return directory ++ "/modflow"
    else return home.elim ".modflow" (· ++ "/.config/modflow")
  | none, home => return home.elim ".modflow" (· ++ "/.config/modflow")

/-- The paths of the files that arguments name. -/
def pathsOf (args : List String) : List String :=
  match Command.ofArgs args with
  | .ok (.validate file) => [file]
  | .ok (.run request) => request.file :: request.settings.toList
  | .error _ => []

/-- Reads everything that arguments draw on. -/
def surroundings (args : List String) : IO Surroundings := do
  let environment ← readVariables variableNames
  let files ← (pathsOf args).mapM fun path => return (path, ← readBytes path)
  let usual ← readBytes ((← settingsDirectory) ++ "/config.toml")
  return {
    file := fun path => ((files.find? fun f => f.1 == path).map Prod.snd).join
    usualSettings := usual
    lookup := fun name => (environment.find? fun v => v.1 == name).map Prod.snd
    fetch := Fetch.unreachable }

/-- Prints how the program ends. -/
def print (e : Ending) : IO Unit := do
  IO.print e.reply.output
  if let some error := e.reply.report then
    IO.eprintln error.envelope.wide
  if let some message := e.reply.failure then
    IO.eprintln s!"Error: {message}"
  if e.code = 2 then
    IO.eprint usage

end WorkflowEngine.Program

/-- Runs the program. -/
def main (args : List String) : IO UInt32 := do
  let ending := WorkflowEngine.CommandLine.Ending.ofArgs
    (← WorkflowEngine.Program.surroundings args) args
  WorkflowEngine.Program.print ending
  return ending.code.toUInt32
