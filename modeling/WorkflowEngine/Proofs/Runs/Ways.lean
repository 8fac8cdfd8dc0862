import WorkflowEngine.Proofs.Runs.Branches
import WorkflowEngine.Proofs.Shapes

/-!
# The ways in which a module may run

A run is not determined by its module and its input alone. The branches of every fan-out may end in
any order, and what a capability answers and how long it takes may differ from call to call. A way
in which a module may run therefore gives every module inside it, which runs once at most, a
schedule and surroundings of its own. To run in given surroundings by time is one of these ways.
-/

namespace WorkflowEngine

namespace Executable

/-- A module ready to run, given its children and the order in which its branches end if it is a
fan-out. -/
def ofKindBy (c : Context) (schedule : Schedule) (id : ModuleId) (signature : Signature) :
    Kind Executable Executable → Executable
  | .parallel branches =>
    ⟨id, .parallel, signature, runParallelBy schedule id signature c.policy branches⟩
  | kind => ofKind c id signature kind

/-- Modules run by time. -/
theorem ofKindBy_byTime (c : Context) (id : ModuleId) (signature : Signature)
    (kind : Kind Executable Executable) :
    ofKindBy c .byTime id signature kind = ofKind c id signature kind := by
  cases kind with
  | parallel branches =>
    rw [ofKindBy, runParallelBy_byTime]
    rfl
  | sequential _ | switch _ _ _ | subWorkflow _ | llm _ | tool _ | http | jsonExtract _ => rfl

section OfKindBy

variable (c : Context) (schedule : Schedule) (id : ModuleId) (signature : Signature)
  (kind : Kind Executable Executable)

@[simp] theorem id_ofKindBy : (ofKindBy c schedule id signature kind).id = id := by
  cases kind <;> rfl

@[simp] theorem signature_ofKindBy :
    (ofKindBy c schedule id signature kind).signature = signature := by
  cases kind <;> rfl

end OfKindBy

end Executable

namespace Module

@[simp] theorem id_executable (c : Context) (m : Module) : (m.executable c).id = m.id := by
  cases m
  rw [executable, fold_mk]
  rfl

@[simp] theorem signature_executable (c : Context) (m : Module) :
    (m.executable c).signature = m.signature := by
  cases m
  rw [executable, fold_mk]
  rfl

/-- The ways in which a module may run when the surroundings of each module inside it are only known
to fulfil `P`. -/
def RunsAs (P : Context → Prop) : Module → Executable → Prop :=
  fold fun id signature kind x => ∃ c schedule kind', P c ∧
    Kind.Rel (fun p y => p y) (fun p y => p y) kind kind' ∧
      x = Executable.ofKindBy c schedule id signature kind'

variable {P : Context → Prop} {id : ModuleId} {signature : Signature} {kind : Kind Module Module}
  {x : Executable}

/-- A module runs as its kind does, with children that run in ways of their own. -/
theorem runsAs_mk_iff :
    RunsAs P (.mk id signature kind) x ↔ ∃ c schedule kind', P c ∧
      kind.Rel (RunsAs P) (RunsAs P) kind' ∧
        x = Executable.ofKindBy c schedule id signature kind' := by
  rw [RunsAs, fold_mk]
  simp only [Kind.rel_map_left_iff]

/-- To run by time in surroundings that fulfil `P` is a way to run. -/
theorem runsAs_executable {c : Context} (hc : P c) (m : Module) : m.RunsAs P (m.executable c) := by
  induction m using induct with
  | step id signature kind hchildren htarget =>
    rw [runsAs_mk_iff]
    refine ⟨c, .byTime, kind.map (executable c) (executable c), hc, ?_, ?_⟩
    · exact Kind.rel_map_right _ _ htarget hchildren
    · rw [executable, fold_mk, Executable.ofKindBy_byTime]
      rfl

/-- What holds of a module and a way in which it runs whenever it holds of its children, of the
module it refers to, and of the ways in which they run, holds of every module and every such way. -/
theorem RunsAs.induct {Q : Module → Executable → Prop}
    (step : ∀ id signature kind c schedule kind', P c →
      Kind.Rel (fun m y => m.RunsAs P y ∧ Q m y) (fun m y => m.RunsAs P y ∧ Q m y) kind kind' →
        Q (.mk id signature kind) (Executable.ofKindBy c schedule id signature kind'))
    {m : Module} (h : m.RunsAs P x) : Q m x := by
  induction m using Module.induct generalizing x with
  | step id signature kind hchildren htarget =>
    obtain ⟨c, schedule, kind', hc, hrel, rfl⟩ := runsAs_mk_iff.1 h
    apply step id signature kind c schedule kind' hc
    exact hrel.imp_of_mem (fun t ht u _ hu => ⟨hu, htarget t ht hu⟩)
      fun m hm y _ hy => ⟨hy, hchildren m hm hy⟩

/-- A way to run keeps the name of the module. -/
theorem RunsAs.id_eq {m : Module} (h : m.RunsAs P x) : x.id = m.id := by
  obtain ⟨id, signature, kind⟩ := m
  obtain ⟨c, schedule, kind', _, _, rfl⟩ := runsAs_mk_iff.1 h
  exact Executable.id_ofKindBy c schedule id signature kind'

/-- A way to run keeps the signature of the module. -/
theorem RunsAs.signature_eq {m : Module} (h : m.RunsAs P x) : x.signature = m.signature := by
  obtain ⟨id, signature, kind⟩ := m
  obtain ⟨c, schedule, kind', _, _, rfl⟩ := runsAs_mk_iff.1 h
  exact Executable.signature_ofKindBy c schedule id signature kind'

end Module

end WorkflowEngine
