import WorkflowEngine.Engine
import WorkflowEngine.Proofs.Runs.Outputs
import WorkflowEngine.Proofs.Runs.Retracing
import WorkflowEngine.Proofs.Templates

/-!
# Names that come twice in an input

The first value of a name is the one bound to it, so a module that reads its input by name does not
see the later ones. A text generation puts values into its template one after the other, and a later
value of a name is put in where an earlier one has brought a placeholder of the name along. The
arguments of a tool hold one value of each name.
-/

namespace WorkflowEngine

/-! ## First values -/

namespace Value

/-- The values whose names are not among given ones and have not occurred before. -/
def firstsAfter (seen : List String) : List Value → List Value
  | [] => []
  | v :: rest =>
    if v.name ∈ seen then firstsAfter seen rest else v :: firstsAfter (v.name :: seen) rest

/-- An input without the values whose names have occurred before. -/
def firsts (input : List Value) : List Value := firstsAfter [] input

/-- The names that count as having occurred do not occur among the first values. -/
theorem name_of_mem_firstsAfter {seen : List String} {input : List Value} {v : Value}
    (h : v ∈ firstsAfter seen input) : v.name ∉ seen := by
  induction input generalizing seen with
  | nil => exact absurd h List.not_mem_nil
  | cons w rest ih =>
    rw [firstsAfter] at h
    split at h
    · exact ih h
    · next hw =>
      rcases List.mem_cons.1 h with rfl | h
      · exact hw
      · exact fun hseen => ih h (List.mem_cons_of_mem _ hseen)

/-- Each name occurs once among the first values. -/
theorem nodup_firstsAfter (seen : List String) (input : List Value) :
    ((firstsAfter seen input).map Value.name).Nodup := by
  induction input generalizing seen with
  | nil => exact List.nodup_nil
  | cons v rest ih =>
    rw [firstsAfter]
    split
    · exact ih seen
    · rw [List.map_cons, List.nodup_cons]
      refine ⟨fun hmem => ?_, ih (v.name :: seen)⟩
      obtain ⟨w, hw, hname⟩ := List.mem_map.1 hmem
      exact name_of_mem_firstsAfter hw (hname ▸ List.mem_cons_self)

end Value

open Value

namespace Bindings

/-- A name that has not occurred is bound by its first value. -/
theorem ofList_firstsAfter (seen : List String) (input : List Value) (name : String) :
    ofList (firstsAfter seen input) name = if name ∈ seen then none else ofList input name := by
  induction input generalizing seen with
  | nil => exact (ite_self none).symm
  | cons v rest ih =>
    rw [firstsAfter]
    by_cases hv : v.name ∈ seen
    · rw [if_pos hv, ih]
      split
      · rfl
      · next hname =>
        have hne : v.name ≠ name := fun h => hname (h ▸ hv)
        exact (ofList_cons_of_ne hne).symm
    · rw [if_neg hv]
      by_cases hname : v.name = name
      · subst hname
        rw [ofList_cons_self, ofList_cons_self, if_neg hv]
      · have hmem : name ∈ v.name :: seen ↔ name ∈ seen := by
          rw [List.mem_cons]
          exact or_iff_right fun h => hname h.symm
        rw [ofList_cons_of_ne hname, ofList_cons_of_ne hname, ih, if_congr hmem rfl rfl]

/-- Names are bound by their first values. -/
theorem ofList_firsts (input : List Value) : ofList (firsts input) = ofList input :=
  funext fun name => (ofList_firstsAfter [] input name).trans (if_neg List.not_mem_nil)

end Bindings

/-! ## Templates -/

namespace Template

/-- Puts a value into a text if it is declared. -/
def fillDeclared (declared : List ValueSpec) (text : List Char) (v : Value) : List Char :=
  if declared.any fun s => s.name == v.name then fill text v else text

/-- A template is filled by putting in the values one after the other. -/
theorem render_eq_foldl (declared : List ValueSpec) (template : String) (input : List Value) :
    render declared template input =
      String.ofList (input.foldl (fillDeclared declared) template.toList) :=
  congrArg String.ofList List.foldl_filter

/-- A pattern that does not occur is not replaced. -/
theorem replaceAll_of_not_infix {pattern replacement text : List Char} (h : ¬ pattern <:+: text) :
    replaceAll pattern replacement text = text := by
  induction text with
  | nil => rfl
  | cons c rest ih =>
    have hfirst : ¬ pattern <+: c :: rest := fun hfront => h hfront.isInfix
    have hrest : ¬ pattern <:+: rest :=
      fun hinner => h (hinner.trans (List.suffix_cons c rest).isInfix)
    rw [replaceAll_cons hfirst, ih hrest]

/-- Whether each declared value of an input whose name is among given ones or has occurred before
finds no placeholder of its name where it would be put in. -/
def Idle (declared : List ValueSpec) (seen : List String) (text : List Char) (input : List Value) :
    Prop :=
  ∀ before v after, input = before ++ v :: after → v.name ∈ seen ∨ v.name ∈ before.map Value.name →
    (declared.any fun s => s.name == v.name) = true →
      ¬ placeholder v.name <:+: before.foldl (fillDeclared declared) text

variable {declared : List ValueSpec} {seen : List String} {text : List Char} {v : Value}
  {rest : List Value}

/-- An idle value leaves the text as it is. -/
theorem Idle.fillDeclared_eq (h : Idle declared seen text (v :: rest)) (hv : v.name ∈ seen) :
    fillDeclared declared text v = text := by
  unfold fillDeclared
  split
  · next hdeclared => exact replaceAll_of_not_infix (h [] v rest rfl (.inl hv) hdeclared)
  · rfl

/-- The values after one that has been put in are idle. -/
theorem Idle.tail (h : Idle declared seen text (v :: rest)) :
    Idle declared (v.name :: seen) (fillDeclared declared text v) rest := by
  intro before w after hrest hw hdeclared
  refine h (v :: before) w after (hrest ▸ rfl) ?_ hdeclared
  rw [List.map_cons]
  rw [List.mem_cons] at hw ⊢
  tauto

/-- Values that are idle need not be put in. -/
theorem Idle.foldl_firstsAfter {input : List Value} (h : Idle declared seen text input) :
    (firstsAfter seen input).foldl (fillDeclared declared) text =
      input.foldl (fillDeclared declared) text := by
  induction input generalizing seen text with
  | nil => rfl
  | cons v rest ih =>
    rw [firstsAfter, List.foldl_cons]
    by_cases hv : v.name ∈ seen
    · have htail : Idle declared seen text rest := by
        have htail := h.tail
        rw [h.fillDeclared_eq hv] at htail
        intro before w after hrest hw
        exact htail before w after hrest (hw.imp_left (List.mem_cons_of_mem _))
      rw [if_pos hv, ih htail, h.fillDeclared_eq hv]
    · rw [if_neg hv, List.foldl_cons, ih h.tail]

/-- A template is filled by the first values alone if no declared value whose name has occurred
before finds a placeholder of its name in what the values before it have made of the template. -/
theorem render_firsts {template : String} {input : List Value}
    (h : ∀ before v after, input = before ++ v :: after → v.name ∈ before.map Value.name →
      (declared.any fun s => s.name == v.name) = true →
        ¬ placeholder v.name <:+: (render declared template before).toList) :
    render declared template input = render declared template (firsts input) := by
  have hidle : Idle declared [] template.toList input := by
    intro before v after hinput hv hdeclared
    have hname := hv.resolve_left List.not_mem_nil
    have hplaceholder := h before v after hinput hname hdeclared
    rwa [render_eq_foldl, String.toList_ofList] at hplaceholder
  rw [render_eq_foldl, render_eq_foldl, firsts, hidle.foldl_firstsAfter]

end Template

/-! ## Arguments of tools -/

namespace Executable

/-- What a tool is passed of a payload: no content is passed as an empty text. -/
def passed (p : Payload) : Payload := if p.isNull then .string "" else p

/-- An argument of a tool is the last value of its name. -/
theorem find?_toolArgs (input : List Value) (name : String) :
    (toolArgs input).find? name =
      ((Bindings.ofList input.reverse name).map passed).map fun p => (name, p) := by
  refine (Ascending.find?_insertAll .empty _ name).trans ?_
  rw [Ascending.find?_empty, Option.or_none, ← List.map_reverse, List.find?_map, Bindings.ofList,
    Option.map_map, Option.map_map]
  refine Option.map_congr fun v hv => ?_
  have hname : v.name = name := by simpa using List.find?_some hv
  exact congrArg (fun n => (n, passed v.payload)) hname

/-- The first values make the same arguments if the last value of each name is passed as the first
one is. -/
theorem toolArgs_firsts {input : List Value}
    (h : ∀ name, (Bindings.ofList input.reverse name).map passed =
      (Bindings.ofList input name).map passed) :
    toolArgs (firsts input) = toolArgs input := by
  have hfirsts : Bindings.ofList (firsts input).reverse = Bindings.ofList input := by
    rw [← Bindings.ofList_firsts input]
    refine Bindings.ofList_perm (List.reverse_perm _) ?_
    rw [((List.reverse_perm (firsts input)).map Value.name).nodup_iff]
    exact nodup_firstsAfter [] input
  apply Ascending.eq_of_find?
  intro name
  rw [find?_toolArgs, find?_toolArgs, hfirsts, h]

/-! ## Text generations -/

/-- The last call of a text generation is that of its prompt. -/
theorem calls_runLlm (signature : Signature) (client : ChatClient) (template : String)
    (input : List Value) :
    let prompt := Template.render signature.input template input
    (runLlm signature client template input).calls =
      (client.generate prompt).calls ++ [.generated prompt (client.generate prompt).outcome] := by
  intro prompt
  rw [runLlm, Run.andThen_ofExcept]
  have hevents := Run.events_closing (client.generate prompt) (.generated prompt)
  exact (congrArg (List.filter Event.isCall) hevents).trans (List.filter_append _ _)

/-- Text generations make the same calls exactly if their prompts are the same. -/
theorem calls_runLlm_eq_iff (signature : Signature) (client : ChatClient) (template : String)
    (input input' : List Value) :
    (runLlm signature client template input).calls =
        (runLlm signature client template input').calls ↔
      Template.render signature.input template input =
        Template.render signature.input template input' := by
  constructor
  · intro h
    have hlast := congrArg List.getLast? h
    rw [calls_runLlm, calls_runLlm, List.getLast?_concat, List.getLast?_concat] at hlast
    exact (Event.generated.inj (Option.some.inj hlast)).1
  · intro h
    rw [calls_runLlm, calls_runLlm, h]

end Executable

namespace Executable

/-- Whether the first value of each name is all that an executable needs of an input: on these
values it has the same outcome after the same time, and makes the same calls, within any limit of
time. -/
def NeedsFirsts (x : Executable) (input : List Value) : Prop :=
  ∀ limit, ((x.run input).withinLimit limit).outcome =
      ((x.run (firsts input)).withinLimit limit).outcome ∧
    ((x.run input).withinLimit limit).elapsed =
      ((x.run (firsts input)).withinLimit limit).elapsed ∧
    ((x.run input).withinLimit limit).calls = ((x.run (firsts input)).withinLimit limit).calls

variable {x : Executable} {input : List Value}

/-- Where runs are alike on the first values, these are all that is needed. -/
theorem needsFirsts_of_retraces (h : (x.run input).Retraces (x.run (firsts input))) :
    x.NeedsFirsts input := by
  intro limit
  have hlimit := h.withinLimit limit
  exact ⟨hlimit.outcome, hlimit.elapsed, hlimit.calls⟩

theorem needsFirsts_of_eq (h : x.run input = x.run (firsts input)) : x.NeedsFirsts input :=
  needsFirsts_of_retraces (h ▸ .refl _)

end Executable

namespace Module

/-- Every module leads to one that is no call. -/
theorem exists_leadsTo (m : Module) : ∃ l, m.LeadsTo l ∧ l.type ≠ .subWorkflow := by
  induction m using induct with
  | step id signature kind _ htarget =>
    cases kind with
    | subWorkflow callee =>
      obtain ⟨l, hl, hcall⟩ := htarget callee rfl
      exact ⟨l, .call hl, hcall⟩
    | sequential _ | parallel _ | switch _ _ _ | llm _ | tool _ | http | jsonExtract _ =>
      exact ⟨_, .self _, nofun⟩

/-- A call runs as what it leads to. -/
theorem RunsAs.exists_of_leadsTo {P : Context → Prop} {m l : Module} {x : Executable}
    (hx : m.RunsAs P x) (hl : m.LeadsTo l) : ∃ y, l.RunsAs P y ∧ x.run = y.run := by
  induction hl generalizing x with
  | self m => exact ⟨x, hx, rfl⟩
  | call _ ih =>
    obtain ⟨c, schedule, kind', -, hrel, rfl⟩ := runsAs_mk_iff.1 hx
    cases hrel with
    | subWorkflow hcallee =>
      obtain ⟨y, hy, hrun⟩ := ih hcallee
      exact ⟨y, hy, hrun⟩

/-- An engine runs a module on any input as it would on another one: the top-level input that is
kept in the surroundings of a run is not read. -/
theorem execute_eq_withinLimit (e : Engine) (executionId : String) (m : Module)
    (input input' : List Value) :
    e.execute executionId m input =
      ((m.executable (e.context executionId input')).run input).withinLimit e.timeout := by
  have hkinds : Executable.ofKind (e.context executionId input) =
      Executable.ofKind (e.context executionId input') := by
    funext id signature kind
    cases kind <;> rfl
  rw [Engine.execute, run, executable, hkinds]
  rfl

/-- A module runs with children of its kind. -/
theorem readsByName_of_rel {T R : Module → Executable → Prop} {kind : Kind Module Module}
    {kind' : Kind Executable Executable} (h : kind.Rel T R kind') (hreads : kind.ReadsByName) :
    kind'.ReadsByName := by
  cases h <;> exact hreads

/-- What the values of an input whose names have occurred before have to do with a run. In the end
every module leads to one that is no call. However the module runs:

1. if that one reads its input by name, as composites, fetches and extractions do, the first value
   of each name is all that is needed;
2. if it is a text generation, the same calls are made exactly if the prompt is the same, and then
   nothing else is needed. The prompt is the same if no value that is declared and whose name has
   occurred before finds a placeholder of its name in the text that the values before it have made
   of the template;
3. if it is a call of a tool, nothing else is needed if there is no such tool, or if the last value
   of each name is passed to it as the first one would be;
4. an engine runs the module on both inputs in one and the same way, within its limit of time. -/
theorem run_firsts (m : Module) :
    (∃ l, m.LeadsTo l ∧ l.type ≠ .subWorkflow) ∧
    (∀ (P : Context → Prop) (x : Executable) (l : Module) (input : List Value),
      m.RunsAs P x → m.LeadsTo l →
        (l.kind.ReadsByName → x.NeedsFirsts input) ∧
        (∀ template, l.kind = .llm template →
          let prompt := Template.render l.signature.input template
          ((x.run input).calls = (x.run (firsts input)).calls ↔
            prompt input = prompt (firsts input)) ∧
          (prompt input = prompt (firsts input) → x.NeedsFirsts input) ∧
          ((∀ before v after, input = before ++ v :: after → v.name ∈ before.map Value.name →
              (l.signature.input.any fun s => s.name == v.name) = true →
                ¬ Template.placeholder v.name <:+: (prompt before).toList) →
            prompt input = prompt (firsts input))) ∧
        ∀ tool, l.kind = .tool tool →
          ((∀ c, P c → c.tools.find? tool = none) ∨
            ∀ name, (Bindings.ofList input.reverse name).map Executable.passed =
              (Bindings.ofList input name).map Executable.passed) →
            x.NeedsFirsts input) ∧
    ∀ (e : Engine) (executionId : String) (input : List Value),
      ∃ x, m.RunsAs (fun d => d = e.context executionId input) x ∧
        e.execute executionId m input = (x.run input).withinLimit e.timeout ∧
        e.execute executionId m (firsts input) =
          (x.run (firsts input)).withinLimit e.timeout := by
  refine ⟨exists_leadsTo m, ?_, ?_⟩
  · intro P x l input hx hl
    obtain ⟨y, hy, hrun⟩ := hx.exists_of_leadsTo hl
    -- On the way to the module that is no call nothing else happens.
    have hneeds : x.NeedsFirsts input ↔ y.NeedsFirsts input := by
      rw [Executable.NeedsFirsts, Executable.NeedsFirsts, hrun]
    rw [hneeds, hrun]
    obtain ⟨id, signature, kind⟩ := l
    obtain ⟨c, schedule, kind', hc, hrel, rfl⟩ := runsAs_mk_iff.1 hy
    refine ⟨?_, ?_, ?_⟩
    · intro hreads
      have hbindings := (Bindings.ofList_firsts input).symm
      exact Executable.needsFirsts_of_retraces (Executable.retraces_ofKindBy c schedule id signature
        (readsByName_of_rel hrel hreads) hbindings)
    · rintro template rfl
      cases hrel
      refine ⟨Executable.calls_runLlm_eq_iff signature c.client template _ _, ?_,
        Template.render_firsts⟩
      intro hprompt
      apply Executable.needsFirsts_of_eq
      simp only [Executable.ofKindBy, Executable.run_ofKind, Executable.runKind, Executable.runLlm]
      rw [show Template.render signature.input template input = _ from hprompt]
      rfl
    -- A tool is given the last value of a name, so that what names are bound to does not matter.
    · rintro tool rfl
      cases hrel
      intro h
      apply Executable.needsFirsts_of_eq
      simp only [Executable.ofKindBy, Executable.run_ofKind, Executable.runKind, Executable.runTool]
      rcases h with hnone | hlast
      · rw [hnone c hc]
      · rw [Executable.toolArgs_firsts hlast]
  · intro e executionId input
    refine ⟨m.executable (e.context executionId input), ?_, rfl, ?_⟩
    · exact runsAs_executable (P := fun d => d = e.context executionId input) rfl m
    · exact execute_eq_withinLimit e executionId m (firsts input) input

/-- A text generation that is given its prompt. -/
def asking : Module :=
  .mk "ask" (.ofSides [.required "x" .string] [.required "a" .string]) (.llm "$\x7bx\x7d")

/-- A second value is put in where the first one is its own placeholder. -/
theorem run_asking_itself :
    let input : List Value := [.ofText "x" "$\x7bx\x7d", .ofText "x" "b"]
    (asking.run (Context.new "run") input).outcome ≠
      (asking.run (Context.new "run") (firsts input)).outcome := by
  intro input
  have hwhole : (asking.run (Context.new "run") input).outcome =
      .ok [⟨.required "a" .string, .string "Mock response for: b"⟩] := by rfl
  have hfirsts : (asking.run (Context.new "run") (firsts input)).outcome =
      .ok [⟨.required "a" .string, .string "Mock response for: $\x7bx\x7d"⟩] := by rfl
  rw [hwhole, hfirsts]
  intro h
  have hvalue := (List.cons.inj (Except.ok.inj h)).1
  exact absurd (Payload.string.inj (congrArg Value.payload hvalue)) (by decide)

/-- A second value is not needed where the first one is plain text, nor if it has the content of the
first, nor by a fetch that is called. -/
theorem run_firsts_asking :
    let c := Context.new "run"
    let echo : Module := .mk "echo" (.ofSides [] [.required "a" .any]) (.tool "echo")
    let call : Module := .mk "call" .empty (.subWorkflow (.mk "fetch" .empty .http))
    (asking.executable c).NeedsFirsts [.ofText "x" "a", .ofText "x" "b"] ∧
      (echo.executable c).NeedsFirsts [.ofText "x" "a", .ofText "x" "a"] ∧
      (call.executable c).NeedsFirsts [.ofText "url" "http://a/", .ofText "url" "b"] := by
  intro c echo call
  have hway (m : Module) : m.RunsAs (fun _ => True) (m.executable c) := runsAs_executable trivial m
  refine ⟨?_, ?_, ?_⟩
  · obtain ⟨-, hllm, -⟩ := (run_firsts asking).2.1 _ _ asking
      [.ofText "x" "a", .ofText "x" "b"] (hway asking) (.self asking)
    obtain ⟨-, hneeds, hidle⟩ := hllm "$\x7bx\x7d" rfl
    refine hneeds (hidle ?_)
    rintro (_ | ⟨w, _ | ⟨w', before⟩⟩) v after hinput hname -
    · exact absurd hname List.not_mem_nil
    · obtain ⟨rfl, hrest⟩ := List.cons.inj hinput
      obtain ⟨rfl, -⟩ := List.cons.inj hrest
      decide +kernel
    · simp at hinput
  · obtain ⟨-, -, htool⟩ := (run_firsts echo).2.1 _ _ echo
      [.ofText "x" "a", .ofText "x" "a"] (hway echo) (.self echo)
    exact htool "echo" rfl (.inr fun _ => rfl)
  · obtain ⟨hreads, -, -⟩ := (run_firsts call).2.1 _ _ (.mk "fetch" .empty .http)
      [.ofText "url" "http://a/", .ofText "url" "b"] (hway call) (.call (.self _))
    exact hreads trivial

end Module

end WorkflowEngine
