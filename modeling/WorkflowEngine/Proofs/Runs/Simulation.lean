import WorkflowEngine.Proofs.Runs.Relations

/-!
# Modules that run alike

Two runs match when they end alike and make the same calls of capabilities, in whatever order. The
one thing in which they may differ is the name of a module in the report of an input that is not
resolved. Children that match make composites that match, whatever the schedules are; what matters
of a child is its signature's sides, what it does, and, for that report alone, its name.
-/

namespace WorkflowEngine

/-- Whether an event is a call of a capability: of the client, of a tool, or of the network. -/
def Event.isCall : Event → Bool
  | .invoked _ => false
  | _ => true

/-- Errors that are the same except that an input that is not resolved may be reported for another
module. -/
inductive Error.Alike (ids : ModuleId → ModuleId → Prop) : Error → Error → Prop where
  /-- An error is like itself. -/
  | refl (e : Error) : Alike ids e e
  /-- An input of one module in place of the input of the same name of another. -/
  | unresolvedInput {a b : ModuleId} (h : ids a b) (name source : String) :
    Alike ids (.unresolvedInput (a ++ "." ++ name) source)
      (.unresolvedInput (b ++ "." ++ name) source)

/-- If no other module's name may stand there, errors that are alike are the same. -/
theorem Error.Alike.eq {e e' : Error} (h : e.Alike Eq e') : e = e' := by
  cases h with
  | refl => rfl
  | unresolvedInput h name source => rw [h]

namespace Run

variable {α β : Type} {ids : ModuleId → ModuleId → Prop}

/-- The calls of capabilities in a run. -/
def calls (r : Run α) : List Event := r.events.filter Event.isCall

/-- Outcomes with the same result or with errors that are alike. -/
inductive EndsAlike (ids : ModuleId → ModuleId → Prop) :
    Except Error α → Except Error α → Prop where
  /-- The same result. -/
  | ok (a : α) : EndsAlike ids (.ok a) (.ok a)
  /-- Errors that are alike. -/
  | error {e e' : Error} (h : e.Alike ids e') : EndsAlike ids (.error e) (.error e')

namespace EndsAlike

theorem refl (outcome : Except Error α) : EndsAlike ids outcome outcome := by
  cases outcome with
  | ok a => exact .ok a
  | error e => exact .error (.refl e)

theorem map {x y : Except Error α} (h : EndsAlike ids x y) (f : α → β) :
    EndsAlike ids (x.map f) (y.map f) := by
  cases h with
  | ok a => exact .ok (f a)
  | error h => exact .error h

theorem eq {x y : Except Error α} (h : EndsAlike Eq x y) : x = y := by
  cases h with
  | ok a => rfl
  | error h => rw [h.eq]

end EndsAlike

/-- Two runs match: they end alike and make the same calls. -/
structure Matches (ids : ModuleId → ModuleId → Prop) (x y : Run α) : Prop where
  /-- They end alike. -/
  outcome : EndsAlike ids x.outcome y.outcome
  /-- They make the same calls, in whatever order. -/
  calls : x.calls.Perm y.calls

/-- Runs that differ in time only match. -/
theorem Agrees.matches {x y : Run α} (h : x.Agrees y) : x.Matches ids y where
  outcome := by
    rw [h.outcome]
    exact .refl _
  calls := h.events.filter _

/-- The calls after a run that fails are those of the run. -/
theorem calls_andThen_of_error {x : Run α} (next : α → Run β) {e : Error}
    (h : x.outcome = .error e) : (x.andThen next).calls = x.calls :=
  congrArg (List.filter Event.isCall) (andThen_of_error next h).2

/-- The calls of runs one after the other. -/
theorem calls_andThen_of_ok {x : Run α} (next : α → Run β) {a : α} (h : x.outcome = .ok a) :
    (x.andThen next).calls = x.calls ++ (next a).calls := by
  rw [calls, (andThen_of_ok next h).2, List.filter_append]
  rfl

/-- The calls of several runs are those of each, one run after the other. -/
theorem calls_flatMap {runs : List (Run α)} :
    (runs.flatMap events).filter Event.isCall = runs.flatMap calls := by
  rw [List.filter_flatMap]
  rfl

namespace Matches

theorem of_outcome {x y : Except Error α} (h : EndsAlike ids x y) :
    (ofExcept x).Matches ids (ofExcept y) := ⟨h, .refl _⟩

/-- The invocation of a child is no call. -/
theorem closing_invoked {x y : Run α} (h : x.Matches ids y)
    (i j : Except Error α → Invocation) :
    (x.closing fun o => .invoked (i o)).Matches ids (y.closing fun o => .invoked (j o)) := by
  refine ⟨h.outcome, ?_⟩
  have hinvoked (z : Run α) (i : Except Error α → Invocation) :
      (z.closing fun o => .invoked (i o)).calls = z.calls := by
    rw [Run.calls, events_closing, List.filter_append]
    exact List.append_nil _
  rw [hinvoked, hinvoked]
  exact h.calls

/-- Runs one after the other. -/
theorem andThen {x y : Run α} {f g : α → Run β} (h : x.Matches ids y)
    (hfg : ∀ a, (f a).Matches ids (g a)) : (x.andThen f).Matches ids (y.andThen g) := by
  obtain ⟨houtcome, hcalls⟩ := h
  cases hx : x.outcome with
  | error e =>
    rw [hx] at houtcome
    generalize hy : y.outcome = o at houtcome
    cases houtcome with
    | error halike =>
      constructor
      · rw [(andThen_of_error f hx).1, (andThen_of_error g hy).1]
        exact .error halike
      · rwa [calls_andThen_of_error f hx, calls_andThen_of_error g hy]
  | ok a =>
    rw [hx] at houtcome
    generalize hy : y.outcome = o at houtcome
    cases houtcome
    constructor
    · rw [(andThen_of_ok f hx).1, (andThen_of_ok g hy).1]
      exact (hfg a).outcome
    · rw [calls_andThen_of_ok f hx, calls_andThen_of_ok g hy]
      exact hcalls.append (hfg a).calls

/-- Time does not matter. -/
theorem congr {x x' y y' : Run α} (hx : x.Agrees x') (hy : y.Agrees y') (h : x'.Matches ids y') :
    x.Matches ids y where
  outcome := by
    rw [hx.outcome, hy.outcome]
    exact h.outcome
  calls := (hx.events.filter _).trans (h.calls.trans (hy.events.filter _).symm)

/-- Runs beside each other. -/
theorem beside {x x' y y' : Run (List α)} (h : x.Matches ids y) (h' : x'.Matches ids y') :
    (x.beside x').Matches ids (y.beside y') where
  outcome := by
    have hfirst := h.outcome
    show EndsAlike ids (x.outcome >>= fun a => x'.outcome.map (a ++ ·))
      (y.outcome >>= fun a => y'.outcome.map (a ++ ·))
    generalize x.outcome = o at hfirst ⊢
    generalize y.outcome = o' at hfirst ⊢
    cases hfirst with
    | ok a => exact h'.outcome.map (a ++ ·)
    | error halike => exact .error halike
  calls := by
    rw [Run.calls, Run.calls, events_beside, events_beside, List.filter_append, List.filter_append]
    exact h.calls.append h'.calls

end Matches

end Run

namespace Context

/-- Surroundings that answer alike, sooner or later, under one policy. -/
structure Alike (c d : Context) : Prop where
  /-- The capabilities answer alike. -/
  answers : c.SameAnswers d
  /-- The policy is the same. -/
  policy : c.policy = d.policy

theorem Alike.refl (c : Context) : c.Alike c := ⟨c.sameAnswers_policy c.policy c.policy, rfl⟩

end Context

namespace Executable

open Run

/-- Two executables match: their names are related, the sides of their signatures are the same, and
on every input their runs match. -/
structure Matches (ids : ModuleId → ModuleId → Prop) (x y : Executable) : Prop where
  /-- The names are related. -/
  id : ids x.id y.id
  /-- They take the same inputs. -/
  input : x.signature.input = y.signature.input
  /-- They give the same outputs. -/
  output : x.signature.output = y.signature.output
  /-- Their runs match. -/
  run : ∀ input, (x.run input).Matches ids (y.run input)

variable {ids : ModuleId → ModuleId → Prop} {x y : Executable}

/-- The inputs of a child are resolved alike whatever the name of the child. -/
theorem resolveInputs_alike {a b : ModuleId} (h : ids a b) (mapping : Dictionary String)
    (policy : InputPolicy) (available : ValueSet) (specs : List ValueSpec) :
    EndsAlike ids (resolveInputs a mapping policy available specs)
      (resolveInputs b mapping policy available specs) := by
  induction specs with
  | nil => exact .ok []
  | cons spec rest ih =>
    cases hv : available.get? (sourceName mapping spec) with
    | some v =>
      simp only [resolveInputs, hv]
      exact ih.map _
    | none =>
      simp only [resolveInputs, hv]
      split
      · exact .error (.unresolvedInput h spec.name _)
      · exact ih

/-- Children that match are invoked alike. -/
theorem Matches.invoke (h : x.Matches ids y) (mapping : Dictionary String) (available : ValueSet)
    (input : List Value) :
    (x.invoke mapping available input).Matches ids (y.invoke mapping available input) :=
  (h.run input).closing_invoked _ _

/-- Composites whose children match under one policy match. -/
theorem respected_matches (ids : ModuleId → ModuleId → Prop) (policy : InputPolicy) :
    Respected policy policy (fun _ => Run.Matches ids) (Matches ids) where
  refl := fun x => (Agrees.refl x).matches
  congr := fun hx hy h => h.congr hx hy
  andThen := fun h hfg => h.andThen hfg
  beside := fun h h' => h.beside h'
  resolve := fun {_ y} h mapping available => by
    rw [h.input]
    exact .of_outcome (resolveInputs_alike h.id mapping policy available y.signature.input)
  run := fun h => h.run
  invoke := fun h => h.invoke
  gather := fun _ _ _ => (Agrees.refl _).matches

variable {c d : Context}

/-- Modules of one kind whose children match, in surroundings that answer alike. -/
theorem matches_ofKindBy (halike : c.Alike d) (schedule schedule' : Schedule) {id : ModuleId}
    (hid : ids id id) {signature signature' : Signature}
    (hinput : signature.input = signature'.input)
    (houtput : signature.output = signature'.output) {kind kind' : Kind Executable Executable}
    (h : kind.Rel (Matches ids) (Matches ids) kind') :
    (ofKindBy c schedule id signature kind).Matches ids
      (ofKindBy d schedule' id signature' kind') := by
  refine ⟨by simpa using hid, by simpa using hinput, by simpa using houtput, fun input => ?_⟩
  exact (respected_matches ids c.policy).ofKindBy halike.answers rfl halike.policy.symm schedule
    schedule' id hinput houtput h input

end Executable

end WorkflowEngine
