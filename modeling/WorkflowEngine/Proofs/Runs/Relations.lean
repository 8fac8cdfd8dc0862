import WorkflowEngine.Proofs.Runs.Ways

/-!
# Relations between runs

A composite is put together in few ways: runs go one after the other or beside one another, a
child's inputs are resolved, the child is invoked, outputs are gathered. A relation between runs
that respects each of these, for children that are related, therefore holds of whole composites
whose children are related place by place. Schedules do not matter: apart from time a fan-out is its
branches beside one another in the order of the branches.
-/

namespace WorkflowEngine

namespace Run

variable {α β : Type}

/-- What takes no time and goes on is two such runs one after the other. -/
theorem ofExcept_bind (x : Except Error α) (f : α → Except Error β) :
    ofExcept (x >>= f) = (ofExcept x).andThen fun a => ofExcept (f a) := by
  cases x <;> rfl

/-- Two runs beside each other, each to its end: both results, or the error of the first that
fails. -/
def beside (x y : Run (List α)) : Run (List α) :=
  ⟨x.outcome >>= fun a => y.outcome.map (a ++ ·), max x.elapsed y.elapsed, x.log ++ y.log⟩

/-- What happens in runs beside each other is what happens in each. -/
theorem events_beside (x y : Run (List α)) : (x.beside y).events = x.events ++ y.events :=
  List.map_append

/-- Runs beside one another. -/
def allBeside (runs : List (Run (List α))) : Run (List α) := runs.foldr beside (ofExcept (.ok []))

/-- What happens in runs beside one another is what happens in each. -/
theorem events_allBeside (runs : List (Run (List α))) :
    (allBeside runs).events = runs.flatMap events := by
  induction runs with
  | nil => rfl
  | cons r rest ih =>
    rw [List.flatMap_cons, ← ih]
    exact events_beside r (allBeside rest)

end Run

namespace Executable

/-! ## Fan-outs apart from time -/

/-- Branches are ready once the inputs of all are resolved. -/
theorem resolveBranches_eq_map (policy : InputPolicy) (available : ValueSet)
    (branches : List Executable) :
    resolveBranches policy available branches =
      (branches.mapM fun b =>
        resolveInputs b.id .empty policy available b.signature.input).map branches.zip := by
  induction branches with
  | nil => rfl
  | cons b rest ih =>
    rw [resolveBranches, List.mapM_cons, ih]
    cases resolveInputs b.id .empty policy available b.signature.input with
    | error e => rfl
    | ok input =>
      cases rest.mapM fun b => resolveInputs b.id .empty policy available b.signature.input <;> rfl

/-- Outcomes are joined as those of runs beside one another. -/
theorem joinFrom_eq_outcome (id : ModuleId) (place : Nat) (runs : List (Run (List Value))) :
    joinFrom id place (runs.map fun r => some r.outcome) = (Run.allBeside runs).outcome := by
  induction runs generalizing place with
  | nil => rfl
  | cons r rest ih =>
    show _ = r.outcome >>= fun a => (Run.allBeside rest).outcome.map (a ++ ·)
    rw [List.map_cons]
    cases r.outcome with
    | error e => rfl
    | ok outputs => exact congrArg (Except.map (outputs ++ ·)) (ih (place + 1))

/-- A fan-out apart from time: once the inputs of all branches are resolved, the branches are
invoked beside one another, and what is declared is kept. -/
def fanOut (signature : Signature) (policy : InputPolicy) (branches : List Executable)
    (input : List Value) : Run (List Value) :=
  (Run.ofExcept (branches.mapM fun b =>
    resolveInputs b.id .empty policy ⟨input⟩ b.signature.input)).andThen fun taken =>
      (Run.allBeside (branches.zipWith (fun b => b.invoke .empty ⟨input⟩) taken)).andThen
        fun outputs => .ofExcept (.ok (outputs.filter fun v => signature.declaresOutput v.name))

/-- Whatever its schedule, a fan-out differs in time only from its branches beside one another. -/
theorem agrees_fanOut (schedule : Schedule) (id : ModuleId) (signature : Signature)
    (policy : InputPolicy) (branches : List Executable) (input : List Value) :
    (runParallelBy schedule id signature policy branches input).Agrees
      (fanOut signature policy branches input) := by
  have hbranches := resolveBranches_eq_map policy ⟨input⟩ branches
  unfold fanOut
  cases htaken : branches.mapM fun b =>
      resolveInputs b.id .empty policy ⟨input⟩ b.signature.input with
  | error e =>
    rw [htaken] at hbranches
    obtain ⟨houtcome, hevents⟩ := runParallelBy_of_error schedule id signature hbranches
    exact ⟨houtcome, .of_eq hevents⟩
  | ok taken =>
    rw [htaken] at hbranches
    obtain ⟨houtcome, hevents⟩ := runParallelBy_of_ready schedule id signature hbranches
    have hruns : branchRuns ⟨input⟩ (branches.zip taken) =
        branches.zipWith (fun b => b.invoke .empty ⟨input⟩) taken := by
      rw [branchRuns, List.zip, List.map_zipWith]
    rw [hruns, joinFrom_eq_outcome] at houtcome
    rw [hruns, ← Run.events_allBeside] at hevents
    rw [Run.ofExcept_ok_andThen, Run.andThen_ofExcept]
    exact ⟨houtcome, hevents⟩

/-! ## Selected branches -/

/-- Of cases with related branches, related branches are selected. -/
theorem rel_select {α β : Type} {R : α → β → Prop} {cases : List (Case α)}
    {cases' : List (Case β)} {fallback : Option α} {fallback' : Option β}
    (hcases : List.Forall₂ (Case.Rel R) cases cases')
    (hfallback : Option.Rel R fallback fallback') (p : Payload) :
    Option.Rel R (select cases fallback p) (select cases' fallback' p) := by
  unfold select
  induction hcases with
  | nil => exact hfallback
  | @cons c c' rest rest' hcase _ ih =>
    rw [List.find?_cons, List.find?_cons, hcase.key]
    split
    · exact .some hcase.child
    · exact ih

/-- What is selected does not depend on what the branches are. -/
theorem select_map {α β : Type} (g : α → β) (cases : List (Case α)) (fallback : Option α)
    (p : Payload) :
    select (cases.map fun c => ⟨c.key, g c.child⟩) (fallback.map g) p =
      (select cases fallback p).map g := by
  rw [select, select, List.find?_map, Option.map_or, Option.map_map, Option.map_map]
  rfl

/-- For what is selected on the one side something related is selected on the other. -/
theorem exists_select_eq_some {α β : Type} {R : α → β → Prop} {cases : List (Case α)}
    {cases' : List (Case β)} {fallback : Option α} {fallback' : Option β}
    (hcases : List.Forall₂ (Case.Rel R) cases cases')
    (hfallback : Option.Rel R fallback fallback') {p : Payload} {a : α}
    (h : select cases fallback p = some a) :
    ∃ b, select cases' fallback' p = some b ∧ R a b := by
  have hrel := rel_select hcases hfallback p
  rw [h] at hrel
  generalize select cases' fallback' p = selected at hrel ⊢
  cases hrel with
  | some hab => exact ⟨_, rfl, hab⟩

/-! ## Relations that composites respect -/

/-- A relation between runs, under two policies, and one between children that composites respect:
if their children are related place by place, then so are they. -/
structure Respected (p q : InputPolicy) (R : (α : Type) → Run α → Run α → Prop)
    (X : Executable → Executable → Prop) : Prop where
  /-- A run is related to itself. -/
  refl {α : Type} (x : Run α) : R α x x
  /-- Time does not matter. -/
  congr {α : Type} {x x' y y' : Run α} (hx : x.Agrees x') (hy : y.Agrees y') (h : R α x' y') :
    R α x y
  /-- Runs one after the other are related. -/
  andThen {α β : Type} {x y : Run α} {f g : α → Run β} (h : R α x y) (hfg : ∀ a, R β (f a) (g a)) :
    R β (x.andThen f) (y.andThen g)
  /-- Runs beside each other are related. -/
  beside {x x' y y' : Run (List Value)} (h : R _ x y) (h' : R _ x' y') :
    R _ (x.beside x') (y.beside y')
  /-- The inputs of related children are resolved in related ways. -/
  resolve {x y : Executable} (h : X x y) (mapping : Dictionary String) (available : ValueSet) :
    R _ (.ofExcept (resolveInputs x.id mapping p available x.signature.input))
      (.ofExcept (resolveInputs y.id mapping q available y.signature.input))
  /-- Related children run in related ways. -/
  run {x y : Executable} (h : X x y) (input : List Value) : R _ (x.run input) (y.run input)
  /-- Related children are invoked in related ways. -/
  invoke {x y : Executable} (h : X x y) (mapping : Dictionary String) (available : ValueSet)
    (input : List Value) : R _ (x.invoke mapping available input) (y.invoke mapping available input)
  /-- Declared outputs are gathered in related ways. -/
  gather (id : ModuleId) (declared : List ValueSpec) (current : ValueSet) :
    R _ (.ofExcept (gatherOutputs id p declared current))
      (.ofExcept (gatherOutputs id q declared current))

namespace Respected

variable {p q : InputPolicy} {R : (α : Type) → Run α → Run α → Prop}
  {X : Executable → Executable → Prop} (h : Respected p q R X)
include h

/-- Runs that differ in time only are related. -/
theorem of_agrees {α : Type} {x y : Run α} (hxy : x.Agrees y) : R α x y :=
  h.congr hxy (.refl y) (h.refl y)

/-- Related children are run in related ways on what is resolved for them. -/
theorem resolveAndInvoke {x y : Executable} (hxy : X x y) (mapping : Dictionary String)
    (available : ValueSet) :
    R _ (x.resolveAndInvoke p mapping available) (y.resolveAndInvoke q mapping available) :=
  h.andThen (h.resolve hxy mapping available) (h.invoke hxy mapping available)

/-- Steps with related children run one after the other. -/
theorem runSteps {steps steps' : List (Step Executable)}
    (hsteps : List.Forall₂ (Step.Rel X) steps steps') (current : ValueSet) :
    R _ (runSteps p steps current) (runSteps q steps' current) := by
  induction hsteps generalizing current with
  | nil => exact h.refl _
  | cons hstep _ ih =>
    rw [Executable.runSteps, Executable.runSteps, hstep.mapping]
    exact h.andThen (h.resolveAndInvoke hstep.child _ current) fun outputs => ih _

/-- Sequences whose steps have related children. -/
theorem runSequential (id : ModuleId) {signature signature' : Signature}
    (houtput : signature.output = signature'.output) {steps steps' : List (Step Executable)}
    (hsteps : List.Forall₂ (Step.Rel X) steps steps') (input : List Value) :
    R _ (runSequential id signature p steps input)
      (runSequential id signature' q steps' input) := by
  rw [Executable.runSequential, Executable.runSequential, houtput]
  exact h.andThen (h.runSteps hsteps ⟨input⟩) (h.gather id signature'.output)

/-- The inputs of related branches are resolved in related ways. -/
theorem resolveAll {branches branches' : List Executable}
    (hbranches : List.Forall₂ X branches branches') (available : ValueSet) :
    R _ (.ofExcept (branches.mapM fun b =>
        resolveInputs b.id .empty p available b.signature.input))
      (.ofExcept (branches'.mapM fun b =>
        resolveInputs b.id .empty q available b.signature.input)) := by
  induction hbranches with
  | nil => exact h.refl _
  | cons hb _ ih =>
    simp only [List.mapM_cons, Run.ofExcept_bind]
    exact h.andThen (h.resolve hb .empty available) fun input => h.andThen ih fun rest => h.refl _

/-- Related branches are invoked beside one another in related ways. -/
theorem allBeside {branches branches' : List Executable}
    (hbranches : List.Forall₂ X branches branches') (available : ValueSet)
    (taken : List (List Value)) :
    R _ (.allBeside (branches.zipWith (fun b => b.invoke .empty available) taken))
      (.allBeside (branches'.zipWith (fun b => b.invoke .empty available) taken)) := by
  induction hbranches generalizing taken with
  | nil => exact h.refl _
  | cons hb _ ih =>
    cases taken with
    | nil => exact h.refl _
    | cons input rest => exact h.beside (h.invoke hb .empty available input) (ih rest)

/-- Fan-outs with related branches, whatever their schedules. -/
theorem runParallelBy (schedule schedule' : Schedule) (id : ModuleId)
    {signature signature' : Signature} (houtput : signature.output = signature'.output)
    {branches branches' : List Executable} (hbranches : List.Forall₂ X branches branches')
    (input : List Value) :
    R _ (runParallelBy schedule id signature p branches input)
      (runParallelBy schedule' id signature' q branches' input) := by
  refine h.congr (agrees_fanOut ..) (agrees_fanOut ..) ?_
  rw [fanOut, fanOut]
  simp only [Signature.declaresOutput, houtput]
  exact h.andThen (h.resolveAll hbranches ⟨input⟩) fun taken =>
    h.andThen (h.allBeside hbranches ⟨input⟩ taken) fun outputs => h.refl _

/-- Switches with related branches. -/
theorem runSwitch {signature signature' : Signature}
    (houtput : signature.output = signature'.output) (condition : String)
    {cases cases' : List (Case Executable)} {fallback fallback' : Option Executable}
    (hcases : List.Forall₂ (Case.Rel X) cases cases') (hfallback : Option.Rel X fallback fallback')
    (input : List Value) :
    R _ (runSwitch signature p condition cases fallback input)
      (runSwitch signature' q condition cases' fallback' input) := by
  have hselect := rel_select hcases hfallback
    ((((ValueSet.mk input).get? condition).map Value.payload).getD .null)
  unfold Executable.runSwitch
  rw [houtput]
  simp only
  generalize (((ValueSet.mk input).get? condition).map Value.payload).getD .null = p at hselect ⊢
  generalize select cases fallback p = branch at hselect ⊢
  generalize select cases' fallback' p = branch' at hselect ⊢
  cases hselect with
  | none => exact h.refl _
  | some hbranch =>
    exact h.andThen (h.resolveAndInvoke hbranch .empty ⟨input⟩) fun outputs => h.refl _

/-- Modules of one kind with related children, in surroundings that answer alike. -/
theorem ofKindBy {c d : Context} (hanswers : c.SameAnswers d) (hp : c.policy = p)
    (hq : d.policy = q) (schedule schedule' : Schedule) (id : ModuleId)
    {signature signature' : Signature} (hinput : signature.input = signature'.input)
    (houtput : signature.output = signature'.output) {kind kind' : Kind Executable Executable}
    (hkind : kind.Rel X X kind') (input : List Value) :
    R _ ((ofKindBy c schedule id signature kind).run input)
      ((ofKindBy d schedule' id signature' kind').run input) := by
  cases hkind with
  | sequential hsteps =>
    simp only [Executable.ofKindBy, run_ofKind, runKind, hp, hq]
    exact h.runSequential id houtput hsteps input
  | parallel hbranches =>
    simp only [Executable.ofKindBy, hp, hq]
    exact h.runParallelBy schedule schedule' id houtput hbranches input
  | switch condition hcases hfallback =>
    simp only [Executable.ofKindBy, run_ofKind, runKind, hp, hq]
    exact h.runSwitch houtput condition hcases hfallback input
  | subWorkflow htarget => exact h.run htarget input
  | llm template =>
    simp only [Executable.ofKindBy, run_ofKind, runKind, runLlm, produce, ← hinput, ← houtput]
    exact h.of_agrees (agrees_runLlm hanswers signature template input)
  | tool name =>
    have hagrees := agrees_runTool hanswers signature name input
    simp only [Executable.ofKindBy, run_ofKind, runKind, runTool, produce, houtput] at hagrees ⊢
    exact h.of_agrees hagrees
  | http =>
    have hagrees := agrees_runHttp hanswers id signature input
    simp only [Executable.ofKindBy, run_ofKind, runKind, runHttp, houtput] at hagrees ⊢
    exact h.of_agrees hagrees
  | jsonExtract path =>
    simp only [Executable.ofKindBy, run_ofKind, runKind, runExtract, produce, houtput]
    exact h.refl _

end Respected

end Executable

end WorkflowEngine
