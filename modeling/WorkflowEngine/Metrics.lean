import WorkflowEngine.Run

/-!
# Metrics

Every run of a module at the top level leaves measurements: how many runs are under way, how many
ended in which way and after what time, and the same for every child that a composite invoked. A
series is a metric with its labels; measurements of one series add up.
-/

namespace WorkflowEngine

/-- A metric with its labels. -/
inductive Series where
  /-- Runs under way. -/
  | activeExecutions
  /-- Runs that ended in a given way. -/
  | executions (status : Status)
  /-- Durations of runs. -/
  | executionDuration
  /-- Invocations of children of a class that ended in a given way. -/
  | invocations (type : ModuleType) (status : Status)
  /-- Durations of invocations of children of a class. -/
  | moduleDuration (type : ModuleType)
  deriving DecidableEq, Repr

/-- The name of a series, its labels in braces. -/
def Series.name : Series → String
  | .activeExecutions => "modflow_active_executions\x7b\x7d"
  | .executions status => "modflow_executions_total\x7bstatus=" ++ status.name ++ "\x7d"
  | .executionDuration => "modflow_execution_duration_seconds\x7b\x7d"
  | .invocations type status =>
    "modflow_module_invocations_total\x7bmodule_type=" ++ type.name ++ ",status=" ++ status.name ++
      "\x7d"
  | .moduleDuration type => "modflow_module_duration_seconds\x7bmodule_type=" ++ type.name ++ "\x7d"

/-- A change of a series: a step up or down, or one sample more. -/
structure Measurement where
  /-- The series that changes. -/
  series : Series
  /-- By how much it changes. -/
  amount : Int
  deriving DecidableEq, Repr

namespace Measurement

/-- What is measured when an event happens. -/
def ofEvent : Event → List Measurement
  | .invoked i => [⟨.invocations i.type i.status, 1⟩, ⟨.moduleDuration i.type, 1⟩]
  | _ => []

/-- What is measured in a run at the top level. -/
def ofRun {α : Type} (r : Run α) : List Measurement :=
  [⟨.activeExecutions, 1⟩] ++ r.log.flatMap (fun e => ofEvent e.2) ++
    [⟨.activeExecutions, -1⟩, ⟨.executionDuration, 1⟩, ⟨.executions (.ofOutcome r.outcome), 1⟩]

/-- The total of a series. -/
def total (s : Series) (ms : List Measurement) : Int :=
  (ms.filter fun m => m.series = s).foldl (fun t m => t + m.amount) 0

/-- The totals of all series that changed, by their names. -/
def totals (ms : List Measurement) : Dictionary Int :=
  .ofList <| ms.map fun m => (m.series.name, total m.series ms)

end Measurement

end WorkflowEngine
