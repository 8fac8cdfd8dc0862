import WorkflowEngine.Http
import WorkflowEngine.Kind

/-!
# Runs

A run has an outcome, takes some time, and leaves a log of what happened and when. One run after the
other adds the times up; runs at the same time take as long as the longest of them, their logs are
merged by time, and each goes on to its end whatever happens to the others. A run that is given less
time than it takes ends with a timeout, and what happened later did not happen.
-/

namespace WorkflowEngine

/-- How something ended. -/
inductive Status where
  /-- With a result. -/
  | success
  /-- It took too long. -/
  | timeout
  /-- With any other error. -/
  | failed
  deriving DecidableEq, Repr, Inhabited

/-- The word for a status. -/
def Status.name : Status → String
  | .success => "success"
  | .timeout => "timeout"
  | .failed => "failed"

/-- The status of an outcome. -/
def Status.ofOutcome {α : Type} : Except Error α → Status
  | .ok _ => .success
  | .error (.timeout _) => .timeout
  | .error _ => .failed

namespace Status

variable {α : Type}

/-- Success is the status of exactly the results. -/
theorem ofOutcome_eq_success_iff (outcome : Except Error α) :
    ofOutcome outcome = .success ↔ ∃ a, outcome = .ok a := by
  fun_cases ofOutcome outcome with
  | case1 a => exact ⟨fun _ => ⟨a, rfl⟩, fun _ => rfl⟩
  | case2 limit => exact ⟨nofun, nofun⟩
  | case3 e hother => exact ⟨nofun, nofun⟩

/-- Timeout is the status of exactly the timeouts, whatever the limit was. -/
theorem ofOutcome_eq_timeout_iff (outcome : Except Error α) :
    ofOutcome outcome = .timeout ↔ ∃ limit, outcome = .error (.timeout limit) := by
  fun_cases ofOutcome outcome with
  | case1 a => exact ⟨nofun, nofun⟩
  | case2 limit => exact ⟨fun _ => ⟨limit, rfl⟩, fun _ => rfl⟩
  | case3 e hother =>
    refine ⟨nofun, ?_⟩
    rintro ⟨limit, h⟩
    exact absurd (Except.error.inj h) (hother limit)

/-- Failed is the status of exactly the errors that are no timeouts. -/
theorem ofOutcome_eq_failed_iff (outcome : Except Error α) :
    ofOutcome outcome = .failed ↔ ∃ e, outcome = .error e ∧ ∀ limit, e ≠ .timeout limit := by
  fun_cases ofOutcome outcome with
  | case1 a => exact ⟨nofun, nofun⟩
  | case2 limit =>
    refine ⟨nofun, ?_⟩
    rintro ⟨e, h, hother⟩
    exact absurd (Except.error.inj h).symm (hother limit)
  | case3 e hother => exact ⟨fun _ => ⟨e, rfl, hother⟩, fun _ => rfl⟩

end Status

/-- A composite's use of a child. -/
structure Invocation where
  /-- Name of the child. -/
  child : ModuleId
  /-- Class of the child. -/
  type : ModuleType
  /-- Inputs that the child declares. -/
  declared : List ValueSpec
  /-- Sources of the inputs that do not go by their own names. -/
  mapping : Dictionary String
  /-- What the composite could draw on. -/
  available : ValueSet
  /-- What the child was given. -/
  input : List Value
  /-- How the child ended. -/
  status : Status

/-- Something that happens in a run. -/
inductive Event where
  /-- A text was generated for a prompt, or was not. -/
  | generated (prompt : String) (answer : Except Error String)
  /-- A tool was called. -/
  | called (tool : String) (args : Dictionary Payload) (answer : Except Error Payload)
  /-- A request was sent. -/
  | requested (request : Http.Request) (answer : Except Error Http.Response)
  /-- A child of a composite ended. -/
  | invoked (invocation : Invocation)

/-- What happened, each with the nanoseconds from the start of the run to its completion. -/
abbrev EventLog := List (Nat × Event)

/-- A run. -/
structure Run (α : Type) where
  /-- The result or the error. -/
  outcome : Except Error α
  /-- Nanoseconds that the run takes. -/
  elapsed : Nat
  /-- What happened. -/
  log : EventLog

namespace Run

variable {α β : Type}

instance : Inhabited (Run α) := ⟨⟨.error default, 0, []⟩⟩

/-- An outcome at once. -/
def ofExcept (outcome : Except Error α) : Run α := ⟨outcome, 0, []⟩

/-- A log that begins later. -/
def delay (nanos : Nat) (log : EventLog) : EventLog := log.map fun e => (nanos + e.1, e.2)

/-- A run, and after it what depends on its result. -/
def andThen (first : Run α) (next : α → Run β) : Run β :=
  match first.outcome with
  | .error e => ⟨.error e, first.elapsed, first.log⟩
  | .ok a =>
    let second := next a
    ⟨second.outcome, first.elapsed + second.elapsed, first.log ++ delay first.elapsed second.log⟩

instance : Monad Run where
  pure a := ofExcept (.ok a)
  bind := andThen

/-- The error of a run that does nothing. -/
def fail (e : Error) : Run α := ofExcept (.error e)

/-- A run whose end is an event of its own. -/
def closing (r : Run α) (event : Except Error α → Event) : Run α :=
  { r with log := r.log ++ [(r.elapsed, event r.outcome)] }

/-- Another error in place of the one that a run ends with. -/
def mapError (f : Error → Error) (r : Run α) : Run α := { r with outcome := r.outcome.mapError f }

/-- A run that begins after a pause. -/
def after (nanos : Nat) (r : Run α) : Run α := ⟨r.outcome, nanos + r.elapsed, delay nanos r.log⟩

/-- The outcomes of runs in the order in which the runs end, each with the place of its run. -/
def arrivals (runs : List (Run α)) : List (Nat × Except Error α) :=
  (runs.zipIdx.mergeSort fun a b => a.1.elapsed ≤ b.1.elapsed).map fun a => (a.2, a.1.outcome)

/-- The time of the longest of several runs. -/
def longest (runs : List (Run α)) : Nat := runs.foldl (fun t r => max t r.elapsed) 0

/-- Logs merged by time; of events at one time those of an earlier run come first. -/
def mergedLog (runs : List (Run α)) : EventLog :=
  (runs.flatMap Run.log).mergeSort fun a b => a.1 ≤ b.1

/-- Runs at the same time, each to its end. -/
def together (runs : List (Run α)) : Run (List (Nat × Except Error α)) :=
  ⟨.ok (arrivals runs), longest runs, mergedLog runs⟩

/-- A run that may take no longer than a limit. -/
def within (limit : Duration) (r : Run α) : Run α :=
  if r.elapsed ≤ limit.nanos then r
  else ⟨.error (.timeout limit), limit.nanos, r.log.filter fun e => e.1 ≤ limit.nanos⟩

/-- A run that may be limited. -/
def withinLimit (limit : Option Duration) (r : Run α) : Run α :=
  match limit with
  | some limit => r.within limit
  | none => r

end Run

end WorkflowEngine
