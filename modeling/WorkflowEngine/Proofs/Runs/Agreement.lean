import WorkflowEngine.Execution

/-!
# Runs that differ in time only

What a run amounts to apart from time is its outcome and the events of its log, whatever their
order. Surroundings whose capabilities answer alike, sooner or later, make the leaves run alike.
-/

namespace WorkflowEngine

namespace Run

variable {α β : Type}

/-- What happened in a run, without the times. -/
def events (r : Run α) : List Event := r.log.map Prod.snd

@[simp] theorem events_ofExcept (outcome : Except Error α) : (ofExcept outcome).events = [] := rfl

@[simp] theorem events_closing (r : Run α) (event : Except Error α → Event) :
    (r.closing event).events = r.events ++ [event r.outcome] := List.map_append

/-- Nothing comes after a run that fails. -/
theorem andThen_of_error {first : Run α} (next : α → Run β) {e : Error}
    (h : first.outcome = .error e) :
    (first.andThen next).outcome = .error e ∧ (first.andThen next).events = first.events := by
  unfold andThen events
  rw [h]
  exact ⟨rfl, rfl⟩

/-- After a run with a result come the outcome and the events of what depends on it. -/
theorem andThen_of_ok {first : Run α} (next : α → Run β) {a : α} (h : first.outcome = .ok a) :
    (first.andThen next).outcome = (next a).outcome ∧
      (first.andThen next).events = first.events ++ (next a).events := by
  unfold andThen events
  rw [h]
  simp [delay, Function.comp_def]

/-- A result at once does not show in what follows it. -/
theorem ofExcept_ok_andThen (a : α) (next : α → Run β) :
    (ofExcept (.ok a)).andThen next = next a := by
  simp [andThen, ofExcept, delay]

/-- What is computed from the result of a run neither takes time nor leaves anything in the log. -/
theorem andThen_ofExcept (r : Run α) (f : α → Except Error β) :
    (r.andThen fun a => ofExcept (f a)) = ⟨r.outcome >>= f, r.elapsed, r.log⟩ := by
  unfold andThen
  cases r.outcome with
  | error e => rfl
  | ok a =>
    simp only [ofExcept, delay, List.map_nil, List.append_nil, Nat.add_zero]
    rfl

/-- A run that goes on ends with its first error, or as what depends on its result. -/
theorem outcome_andThen (first : Run α) (next : α → Run β) :
    (first.andThen next).outcome = first.outcome >>= fun a => (next a).outcome := by
  cases ha : first.outcome with
  | error e => exact (andThen_of_error next ha).1
  | ok a => exact (andThen_of_ok next ha).1

/-- What happens in a run that goes on happens in its first part or in what depends on its
result. -/
theorem mem_events_andThen {first : Run α} {next : α → Run β} {e : Event}
    (h : e ∈ (first.andThen next).events) :
    e ∈ first.events ∨ ∃ a, first.outcome = .ok a ∧ e ∈ (next a).events := by
  cases ha : first.outcome with
  | error _ =>
    rw [(andThen_of_error next ha).2] at h
    exact .inl h
  | ok a =>
    rw [(andThen_of_ok next ha).2, List.mem_append] at h
    exact h.imp_right fun h => ⟨a, rfl, h⟩

/-- A run that goes on has a result only if its first part has. -/
theorem exists_of_andThen_eq_ok {first : Run α} {next : α → Run β} {b : β}
    (h : (first.andThen next).outcome = .ok b) :
    ∃ a, first.outcome = .ok a ∧ (next a).outcome = .ok b := by
  cases ha : first.outcome with
  | error e => cases (andThen_of_error next ha).1.symm.trans h
  | ok a => exact ⟨a, rfl, (andThen_of_ok next ha).1.symm.trans h⟩

/-- A run that goes on fails with its first part or with what depends on its result. -/
theorem exists_of_andThen_eq_error {first : Run α} {next : α → Run β} {e : Error}
    (h : (first.andThen next).outcome = .error e) :
    first.outcome = .error e ∨ ∃ a, first.outcome = .ok a ∧ (next a).outcome = .error e := by
  cases ha : first.outcome with
  | error e' =>
    have he : e' = e := Except.error.inj ((andThen_of_error next ha).1.symm.trans h)
    exact .inl (congrArg Except.error he)
  | ok a => exact .inr ⟨a, rfl, (andThen_of_ok next ha).1.symm.trans h⟩

/-- A limit of time adds nothing to what happens. -/
theorem mem_events_of_withinLimit {r : Run α} {limit : Option Duration} {e : Event}
    (h : e ∈ (r.withinLimit limit).events) : e ∈ r.events := by
  cases limit with
  | none => exact h
  | some limit =>
    rw [withinLimit, within] at h
    split at h
    · exact h
    · exact (List.filter_sublist.map Prod.snd).subset h

/-- Two runs differ in time only: they end alike, and the same happens in them, in whatever
order. -/
structure Agrees (x y : Run α) : Prop where
  /-- They end alike. -/
  outcome : x.outcome = y.outcome
  /-- The same happens. -/
  events : x.events.Perm y.events

namespace Agrees

theorem refl (x : Run α) : x.Agrees x := ⟨rfl, .refl _⟩

/-- Runs that differ in time only may be closed by an event that is made of how they end. -/
theorem closing {x y : Run α} (h : x.Agrees y) (event : Except Error α → Event) :
    (x.closing event).Agrees (y.closing event) where
  outcome := h.outcome
  events := by
    rw [events_closing, events_closing, h.outcome]
    exact h.events.append_right _

/-- They may also have their errors made into other ones. -/
theorem mapError {x y : Run α} (h : x.Agrees y) (f : Error → Error) :
    (x.mapError f).Agrees (y.mapError f) :=
  ⟨congrArg (Except.mapError f) h.outcome, h.events⟩

/-- Runs one after the other. -/
theorem andThen {x y : Run α} {f g : α → Run β} (h : x.Agrees y) (hfg : ∀ a, (f a).Agrees (g a)) :
    (x.andThen f).Agrees (y.andThen g) := by
  cases hx : x.outcome with
  | error e =>
    have hf := andThen_of_error f hx
    have hg := andThen_of_error g (h.outcome.symm.trans hx)
    exact ⟨hf.1.trans hg.1.symm, hf.2 ▸ hg.2 ▸ h.events⟩
  | ok a =>
    have hf := andThen_of_ok f hx
    have hg := andThen_of_ok g (h.outcome.symm.trans hx)
    refine ⟨hf.1.trans ((hfg a).outcome.trans hg.1.symm), ?_⟩
    rw [hf.2, hg.2]
    exact h.events.append (hfg a).events

end Agrees

end Run

namespace Context

/-- Two surroundings answer alike: text generation, tools and fetches depend on nothing but their
arguments, apart from the time they take. -/
structure SameAnswers (c d : Context) : Prop where
  /-- Prompts are answered alike. -/
  client : ∀ prompt, (c.client.generate prompt).Agrees (d.client.generate prompt)
  /-- There are the same tools, and they answer alike. -/
  tools : ∀ name, Option.Rel (fun t u : Tool => ∀ args, (t.call args).Agrees (u.call args))
    (c.tools.find? name) (d.tools.find? name)
  /-- Requests are answered alike. -/
  fetch : ∀ request, (c.fetch request).Agrees (d.fetch request)

/-- The capabilities of surroundings answer alike whatever the policy is. -/
theorem sameAnswers_policy (c : Context) (p q : InputPolicy) :
    SameAnswers { c with policy := p } { c with policy := q } where
  client := fun _ => .refl _
  tools := fun name => by
    show Option.Rel _ (c.tools.find? name) (c.tools.find? name)
    cases c.tools.find? name with
    | none => exact .none
    | some t => exact .some fun _ => .refl _
  fetch := fun _ => .refl _

end Context

namespace Executable

variable {c d : Context}

/-- A text generation runs alike. -/
theorem agrees_runLlm (h : c.SameAnswers d) (signature : Signature) (template : String)
    (input : List Value) :
    (runLlm signature c.client template input).Agrees (runLlm signature d.client template input) :=
  ((h.client _).closing _).andThen fun _ => .refl _

/-- A tool call runs alike. -/
theorem agrees_runTool (h : c.SameAnswers d) (signature : Signature) (name : String)
    (input : List Value) :
    (runTool signature c.tools name input).Agrees (runTool signature d.tools name input) := by
  have htool := h.tools name
  unfold runTool
  generalize c.tools.find? name = t at htool ⊢
  generalize d.tools.find? name = u at htool ⊢
  cases htool with
  | none => exact .refl _
  | some hcall => exact (((hcall _).closing _).mapError _).andThen fun _ => .refl _

/-- A fetch runs alike. -/
theorem agrees_runHttp (h : c.SameAnswers d) (id : ModuleId) (signature : Signature)
    (input : List Value) :
    (runHttp id signature c.fetch input).Agrees (runHttp id signature d.fetch input) :=
  (Run.Agrees.refl _).andThen fun request =>
    ((h.fetch request).closing _).andThen fun _ => .refl _

end Executable

end WorkflowEngine
