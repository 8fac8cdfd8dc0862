import WorkflowEngine.Proofs.Compilation.Kept
import WorkflowEngine.Proofs.References
import WorkflowEngine.Spec.Builder

/-!
# What compiled modules depend on

A call depends on its target and on what the target depends on, and a fan-out or a switch on what
its children depend on. A sequence keeps the dependencies that it declares and gets none from its
steps. So of the references inside a specification those get into the compiled signature that stand
outside every sequence; for those inside the outermost sequences it is up to what has been declared.
-/

namespace WorkflowEngine

namespace ModuleSpec

variable {r : Resolver} {s n : ModuleSpec} {t : ModuleId}

/-! ## Where dependencies come from -/

/-- What takes part in the signature of a compiled specification: the specification itself and,
unless it is a sequence, whatever takes part in those of its children. -/
inductive Shows : ModuleSpec → ModuleSpec → Prop where
  /-- A specification shows itself. -/
  | self (s : ModuleSpec) : Shows s s
  /-- What is not a sequence shows what its children show. -/
  | child {s c n : ModuleSpec} (hs : s.type ≠ .sequential) (hc : c ∈ s.children)
    (hn : Shows c n) : Shows s n

/-- What is shown is contained. -/
theorem Shows.contains (h : s.Shows n) : s.Contains n := by
  induction h with
  | self s => exact .self s
  | child _ hc _ ih => exact .child hc ih

/-- A module shows itself and, unless it is a sequence, what its children show. -/
theorem shows_iff : s.Shows n ↔ n = s ∨ s.type ≠ .sequential ∧ ∃ c ∈ s.children, c.Shows n := by
  constructor
  · intro h
    cases h with
    | self => exact .inl rfl
    | child hs hc hn => exact .inr ⟨hs, _, hc, hn⟩
  · rintro (rfl | ⟨hs, c, hc, hn⟩)
    · exact .self n
    · exact .child hs hc hn

/-- The dependencies that a specification declares are kept by its module. A call has those of its
target in their place, and a fetch or an extraction that declares nothing to take or to give has
none. -/
def KeepsDeclared (s : ModuleSpec) : Prop :=
  match s.kind with
  | .subWorkflow _ => False
  | .http | .jsonExtract _ => s.signature.isEmpty = false
  | .sequential _ | .parallel _ | .switch _ _ _ | .llm _ | .tool _ => True

/-- What a specification adds to the dependencies by itself, whatever its children add. -/
inductive Brings (r : Resolver) (s : ModuleSpec) (t : ModuleId) : Prop where
  /-- It has declared the dependency. -/
  | declared (hkeeps : s.KeepsDeclared) (ht : t ∈ s.signature.dependencies.toList)
  /-- It is a call of it. -/
  | target (ht : s.kind.target? = some t)
  /-- It is a call of something that depends on it. -/
  | callee {target : ModuleId} {callee : Module} (htarget : s.kind.target? = some target)
    (hcallee : r.Yields target callee) (ht : t ∈ callee.signature.dependencies.toList)

/-- What is no call brings what it declares. -/
theorem brings_iff_of_target?_eq_none (h : s.kind.target? = none) :
    s.Brings r t ↔ s.KeepsDeclared ∧ t ∈ s.signature.dependencies.toList := by
  constructor
  · intro hbrings
    cases hbrings with
    | declared hkeeps ht => exact ⟨hkeeps, ht⟩
    | target ht => cases h.symm.trans ht
    | callee htarget _ _ => cases h.symm.trans htarget
  · rintro ⟨hkeeps, ht⟩
    exact .declared hkeeps ht

/-- A call brings its target and what the module of the target depends on. -/
theorem brings_call_iff {id : ModuleId} {signature : Signature} {target : ModuleId}
    {callee : Module} (hcallee : r.Yields target callee) :
    (ModuleSpec.mk id signature (.subWorkflow target)).Brings r t ↔
      t = target ∨ t ∈ callee.signature.dependencies.toList := by
  constructor
  · intro hbrings
    cases hbrings with
    | declared hkeeps _ => exact hkeeps.elim
    | target ht => exact .inl (Option.some.inj ht).symm
    | callee htarget hcallee' ht =>
      cases htarget
      exact .inr (hcallee.unique hcallee' ▸ ht)
  · rintro (rfl | ht)
    · exact .target rfl
    · exact .callee rfl hcallee ht

/-! ## Signatures -/

/-- A composite depends on what it declares and on what its children depend on. -/
theorem mem_dependencies_composite {declared : Signature} {condition : Option String}
    {children : List Module} :
    t ∈ (declared.composite condition (children.map Module.signature)).dependencies.toList ↔
      t ∈ declared.dependencies.toList ∨
        ∃ c ∈ children, t ∈ c.signature.dependencies.toList := by
  rw [Signature.composite, TextSet.mem_foldl_insertAll Signature.dependencies]
  simp only [List.mem_map, exists_exists_and_eq_and]

/-- A signature that is used in place of an empty one brings no dependencies. -/
theorem mem_dependencies_ite {declared usual : Signature} (h : usual.dependencies = .empty) :
    t ∈ (if declared.isEmpty then usual else declared).dependencies.toList ↔
      declared.isEmpty = false ∧ t ∈ declared.dependencies.toList := by
  cases hempty : declared.isEmpty with
  | false => simp
  | true => simp [h, Ascending.empty]

/-- The dependencies of a module are what its specification brings and, unless this is a sequence,
the dependencies of its children. -/
theorem mem_dependencies_completed (id : ModuleId) {signature : Signature}
    {kind : Kind ModuleId ModuleSpec} {kind' : Kind Module Module} {R : ModuleSpec → Module → Prop}
    (h : kind.Rel r.Yields R kind') :
    t ∈ (signature.completed kind.target? kind').dependencies.toList ↔
      (ModuleSpec.mk id signature kind).Brings r t ∨
        kind.type ≠ .sequential ∧ ∃ c ∈ kind'.children, t ∈ c.signature.dependencies.toList := by
  cases h with
  | sequential _ =>
    rw [brings_iff_of_target?_eq_none rfl]
    simp [Signature.completed, KeepsDeclared, Kind.type]
  | parallel _ =>
    rw [brings_iff_of_target?_eq_none rfl, Signature.completed, mem_dependencies_composite]
    simp [KeepsDeclared, Kind.type, Kind.children]
  | switch condition _ _ =>
    rw [brings_iff_of_target?_eq_none rfl, Signature.completed, mem_dependencies_composite]
    simp [KeepsDeclared, Kind.type]
  | subWorkflow hcallee =>
    rw [brings_call_iff hcallee]
    simp [Signature.completed, Signature.withDependency, TextSet.mem_insert, Kind.target?,
      Kind.children]
  | llm _ | tool _ =>
    rw [brings_iff_of_target?_eq_none rfl]
    simp [Signature.completed, KeepsDeclared, Kind.children]
  | http | jsonExtract _ =>
    rw [brings_iff_of_target?_eq_none rfl, Signature.completed, mem_dependencies_ite rfl]
    simp [KeepsDeclared, Kind.children]

/-- A compiled module depends on what is brought by anything that its specification shows, and on
nothing else. -/
theorem Yields.mem_dependencies_iff {m : Module} (h : s.Yields r m) :
    t ∈ m.signature.dependencies.toList ↔ ∃ n, s.Shows n ∧ n.Brings r t := by
  refine Yields.induct (Q := fun s m => t ∈ m.signature.dependencies.toList ↔
    ∃ n, s.Shows n ∧ n.Brings r t) ?_ h
  intro id signature kind kind' _ hrel
  have hyields : kind.Rel r.Yields (fun s m => t ∈ m.signature.dependencies.toList ↔
      ∃ n, s.Shows n ∧ n.Brings r t) kind' :=
    hrel.imp (fun _ _ ⟨s, hs, hm, _⟩ => Resolver.yields_iff.2 ⟨s, hs, hm⟩) fun _ _ h => h.2
  have hchildren : (∃ c ∈ kind'.children, t ∈ c.signature.dependencies.toList) ↔
      ∃ c ∈ kind.children, ∃ n, c.Shows n ∧ n.Brings r t := by
    constructor
    · rintro ⟨c, hc, ht⟩
      obtain ⟨d, hd, hiff⟩ := exists_mem_of_forall₂ hyields.children hc
      exact ⟨d, hd, hiff.1 ht⟩
    · rintro ⟨d, hd, hn⟩
      obtain ⟨c, hc, hiff⟩ := exists_mem_of_forall₂ hyields.children.flip hd
      exact ⟨c, hc, hiff.2 hn⟩
  rw [Module.signature_mk, mem_dependencies_completed id hyields, hchildren]
  constructor
  · rintro (hself | ⟨htype, c, hc, n, hn, hbrings⟩)
    · exact ⟨_, .self _, hself⟩
    · exact ⟨n, .child htype hc hn, hbrings⟩
  · rintro ⟨n, hn, hbrings⟩
    rcases shows_iff.1 hn with rfl | ⟨htype, c, hc, hn⟩
    · exact .inl hbrings
    · exact .inr ⟨htype, c, hc, n, hn, hbrings⟩

/-! ## References -/

/-- A reference inside a specification is a call that is shown or stands inside a sequence that
is. -/
theorem exists_shown_of_mem_targets (h : t ∈ s.targets) :
    ∃ n, s.Shows n ∧ (n.kind.target? = some t ∨ n.type = .sequential ∧ t ∈ n.targets) := by
  induction s using induct with
  | step id signature kind ih =>
    by_cases htype : kind.type = .sequential
    · exact ⟨_, .self _, .inr ⟨htype, h⟩⟩
    · rw [targets_mk, List.mem_append, Option.mem_toList, List.mem_flatMap] at h
      rcases h with htarget | ⟨c, hc, ht⟩
      · exact ⟨_, .self _, .inl htarget⟩
      · obtain ⟨n, hn, hfound⟩ := ih c hc ht
        exact ⟨n, .child htype hc hn, hfound⟩

/-- What something inside refers to is referred to. -/
theorem Contains.mem_targets (h : s.Contains n) (ht : t ∈ n.targets) : t ∈ s.targets := by
  obtain ⟨call, hcall, htarget⟩ := mem_targets_iff.1 ht
  exact mem_targets_iff.2 ⟨call, h.trans hcall, htarget⟩

/-- What a module refers to depends on its kind alone. -/
theorem targets_congr {id id' : ModuleId} {signature signature' : Signature}
    {kind : Kind ModuleId ModuleSpec} :
    (ModuleSpec.mk id signature kind).targets = (ModuleSpec.mk id' signature' kind).targets := by
  rw [targets_mk, targets_mk]

/-- What a draft becomes declares all that it refers to. -/
theorem mem_dependencies_finish {κ : Type} (d : Draft κ) (kind : Kind ModuleId ModuleSpec)
    (ht : t ∈ (d.finish kind).targets) :
    t ∈ (d.finish kind).signature.dependencies.toList := by
  have hdeclared : t ∈ (ModuleSpec.mk d.id .empty kind).references.toList := by
    rw [mem_references_iff, targets_congr]
    exact ht
  exact hdeclared

theorem keepsDeclared_of_type_eq_sequential (h : s.type = .sequential) : s.KeepsDeclared := by
  obtain ⟨id, signature, kind⟩ := s
  cases kind with
  | sequential _ => trivial
  | parallel _ | switch _ _ _ | subWorkflow _ | llm _ | tool _ | http | jsonExtract _ => cases h

/-- What refers to anything keeps the dependencies that it declares or is a call. -/
theorem keepsDeclared_or_target_of_mem_targets (ht : t ∈ s.targets) :
    s.KeepsDeclared ∨ s.kind.target? = some t := by
  obtain ⟨id, signature, kind⟩ := s
  rw [targets_mk] at ht
  cases kind with
  | sequential _ | parallel _ | switch _ _ _ | llm _ | tool _ => exact .inl trivial
  | subWorkflow target =>
    have htarget : t = target := by simpa [Kind.target?, Kind.children] using ht
    exact .inr (congrArg some htarget.symm)
  | http | jsonExtract _ => exact absurd ht List.not_mem_nil

end ModuleSpec

namespace Resolver

variable {r : Resolver}

/-- What a compiled module depends on, whatever has been compiled before and however deep references
are followed:

1. it depends on what is brought by anything that its specification shows, and on nothing else;
2. it depends on all that its specification refers to exactly if it depends on all that the
   outermost sequences refer to that the specification shows;
3. it does if these sequences declare what they refer to;
4. it does if the specification itself declares what it refers to;
5. so it does if the specification is what a draft has become. -/
theorem dependencies_of_compileWith_eq_ok {cache : CompileCache} (hcache : cache.Sound r)
    {depth : Nat} {s : ModuleSpec} {m : Module}
    (hm : (s.compileWith (r.compileAt depth) cache).1 = .ok m) :
    let Complete := ∀ t ∈ s.references.toList, t ∈ m.signature.dependencies.toList
    (∀ t, t ∈ m.signature.dependencies.toList ↔ ∃ n, s.Shows n ∧ n.Brings r t) ∧
      (Complete ↔ ∀ n, s.Shows n → n.type = .sequential → ∀ t ∈ n.references.toList,
        t ∈ m.signature.dependencies.toList) ∧
      ((∀ n, s.Shows n → n.type = .sequential → ∀ t ∈ n.references.toList,
        t ∈ n.signature.dependencies.toList) → Complete) ∧
      ((∀ t ∈ s.references.toList, t ∈ s.signature.dependencies.toList) → Complete) ∧
      ∀ {κ : Type} (d : Draft κ) (kind : Kind ModuleId ModuleSpec),
        s = d.finish kind → Complete := by
  intro Complete
  have hyields : s.Yields r m := yields_of_compileWith_eq_ok hcache hm
  have hiff : ∀ t, t ∈ m.signature.dependencies.toList ↔ ∃ n, s.Shows n ∧ n.Brings r t :=
    fun t => hyields.mem_dependencies_iff
  have hsequences : Complete ↔ ∀ n, s.Shows n → n.type = .sequential →
      ∀ t ∈ n.references.toList, t ∈ m.signature.dependencies.toList := by
    constructor
    · intro hcomplete n hn _ t ht
      have hin := hn.contains.mem_targets (ModuleSpec.mem_references_iff.1 ht)
      exact hcomplete t (ModuleSpec.mem_references_iff.2 hin)
    · intro hseq t ht
      obtain ⟨n, hn, htarget | ⟨htype, hin⟩⟩ :=
        ModuleSpec.exists_shown_of_mem_targets (ModuleSpec.mem_references_iff.1 ht)
      · exact (hiff t).2 ⟨n, hn, .target htarget⟩
      · exact hseq n hn htype t (ModuleSpec.mem_references_iff.2 hin)
  -- What the specification declares is kept unless it is a call, which brings its target anyway.
  have hself : (∀ t ∈ s.references.toList, t ∈ s.signature.dependencies.toList) → Complete := by
    intro hdeclared t ht
    rcases ModuleSpec.keepsDeclared_or_target_of_mem_targets
      (ModuleSpec.mem_references_iff.1 ht) with hkeeps | htarget
    · exact (hiff t).2 ⟨s, .self s, .declared hkeeps (hdeclared t ht)⟩
    · exact (hiff t).2 ⟨s, .self s, .target htarget⟩
  refine ⟨hiff, hsequences, ?_, hself, ?_⟩
  · intro hdeclared
    rw [hsequences]
    intro n hn htype t ht
    have hkeeps : n.KeepsDeclared := ModuleSpec.keepsDeclared_of_type_eq_sequential htype
    exact (hiff t).2 ⟨n, hn, .declared hkeeps (hdeclared n hn htype t ht)⟩
  · rintro κ d kind rfl
    apply hself
    intro t ht
    exact ModuleSpec.mem_dependencies_finish d kind (ModuleSpec.mem_references_iff.1 ht)

/-- A workflow that does nothing, and a sequence that calls it without declaring this. -/
def undeclaredCall : Resolver :=
  ⟨[("child", .mk "child" .empty (.sequential [])),
    ("main", .mk "main" .empty (.sequential [⟨.call "child", .empty⟩]))], by decide⟩

/-- The workflow that does nothing, compiled. -/
def idle : Module := .mk "child" .empty (.sequential [])

/-- The call of it, compiled. -/
def idleCall : Module :=
  .mk "call_child" (Signature.empty.withDependency "child") (.subWorkflow idle)

/-- The sequence, compiled. -/
def idleSteps : Module := .mk "main" .empty (.sequential [⟨idleCall, .empty⟩])

section

variable {cache : CompileCache}

/-- The workflow that does nothing is compiled and kept, wherever it is met first. -/
theorem compileAt_idle (depth : Nat) (hkept : cache.done.get? "child" = none)
    (hid : "child" ∉ cache.pending) :
    undeclaredCall.compileAt (depth + 1) "child" cache = (.ok idle, cache.keep "child" idle) := by
  rw [compileAt_succ hkept hid rfl]
  show (_, CompileCache.keep ⟨(cache.pending ++ ["child"]).dropLast, cache.done⟩ _ _) = _
  rw [List.dropLast_concat]
  rfl

/-- A sequence of one call is compiled by compiling what it calls. -/
theorem compileWith_callingSteps {id : ModuleId} {signature : Signature}
    (hcheck : signature.check id = .ok ()) (reference : ModuleId → Compiling Module) :
    (ModuleSpec.mk id signature (.sequential [⟨.call "child", .empty⟩])).compileWith reference =
      reference "child" >>= fun callee => pure (.mk id signature (.sequential
        [⟨.mk "call_child" (callee.signature.withDependency "child") (.subWorkflow callee),
          .empty⟩])) := by
  have hcall : Signature.check ("call_" ++ "child") (.withDependency .empty "child") = .ok () := rfl
  simp only [ModuleSpec.compileWith, ModuleSpec.call, ModuleSpec.fold_mk, Kind.map, List.map_cons,
    List.map_nil, ModuleSpec.compileNode, ModuleSpec.compileKind, List.mapM_cons, List.mapM_nil,
    hcheck, hcall, ModuleSpec.ofExcept, pure_bind, bind_assoc]
  rfl

/-- The sequence is compiled and kept after the workflow, wherever both are met first. -/
theorem compileAt_idleSteps (depth : Nat) (hkept : cache.done.get? "main" = none)
    (hchild : cache.done.get? "child" = none) (hid : "main" ∉ cache.pending)
    (hidle : "child" ∉ cache.pending) :
    undeclaredCall.compileAt (depth + 2) "main" cache =
      (.ok idleSteps, (cache.keep "child" idle).keep "main" idleSteps) := by
  have hpushed : "child" ∉ (cache.push "main").pending := by
    simp only [CompileCache.push, List.mem_append, List.mem_singleton, hidle, false_or]
    decide
  have hcalled := @compileAt_idle (cache.push "main") depth hchild hpushed
  rw [compileAt_succ hkept hid rfl, compileWith_callingSteps rfl, Compiling.within,
    ModuleSpec.id_mk, Compiling.bind_of_ok hcalled]
  show (_, CompileCache.keep ⟨(cache.pending ++ ["main"]).dropLast, _⟩ _ _) = _
  rw [List.dropLast_concat]
  rfl

end

/-- The table of the sequence holds the sequence and the workflow. -/
theorem compileMain_undeclaredCall :
    undeclaredCall.compileMain "main" = .ok ⟨[idle, idleSteps], by decide⟩ := by
  have hmain : undeclaredCall.compileReference "main" .empty = _ :=
    compileAt_idleSteps 3 rfl rfl List.not_mem_nil List.not_mem_nil
  rw [compileMain, hmain]
  rfl

/-- The sequence compiles, and its module does not depend on what it calls. -/
theorem dependencies_undeclaredCall :
    ∃ s table m, undeclaredCall.get? "main" = some s ∧ "child" ∈ s.references.toList ∧
      undeclaredCall.compileMain "main" = .ok table ∧ table.find? "main" = some m ∧
      m.signature.dependencies.toList = [] :=
  ⟨_, _, idleSteps, rfl, by decide, compileMain_undeclaredCall, rfl, rfl⟩

/-- A sequence that declares what it calls. -/
def declaringSteps : ModuleSpec :=
  .mk "steps" (Signature.empty.withDependency "child") (.sequential [⟨.call "child", .empty⟩])

/-- A fan-out of a call and of this sequence. -/
def declaringFanOut : ModuleSpec := .mk "both" .empty (.parallel [.call "main", declaringSteps])

/-- The fan-out, compiled. -/
def declaringModule : Module :=
  .mk "both" ((Signature.empty.withDependency "main").withDependency "child") (.parallel [
    .mk "call_main" (Signature.empty.withDependency "main") (.subWorkflow idleSteps),
    .mk "steps" (Signature.empty.withDependency "child") (.sequential [⟨idleCall, .empty⟩])])

/-- The fan-out is compiled by compiling its branches one after the other. -/
theorem compileWith_declaringFanOut (reference : ModuleId → Compiling Module) :
    declaringFanOut.compileWith reference =
      (ModuleSpec.call "main").compileWith reference >>= fun first =>
        declaringSteps.compileWith reference >>= fun second =>
          pure (.mk "both" (Signature.empty.composite none [first.signature, second.signature])
            (.parallel [first, second])) := by
  have hcheck : Signature.check "both" .empty = .ok () := rfl
  simp only [declaringFanOut, ModuleSpec.compileWith, ModuleSpec.fold_mk, Kind.map, List.map_cons,
    List.map_nil, ModuleSpec.compileNode, ModuleSpec.compileKind, List.mapM_cons, List.mapM_nil,
    ModuleSpec.ofExcept, pure_bind, bind_assoc, hcheck]

/-- The call and the sequence meet the workflow one after the other; the sequence finds it kept. -/
theorem compileSpec_declaringFanOut :
    (undeclaredCall.compileSpec declaringFanOut .empty).1 = .ok declaringModule := by
  have hmain := @compileAt_idleSteps (CompileCache.empty.push "both") 3 rfl rfl (by decide)
    (by decide)
  have hcall : (ModuleSpec.call "main").compileWith (undeclaredCall.compileAt 5) =
      undeclaredCall.compileAt 5 "main" >>= fun callee =>
        pure (.mk "call_main" (callee.signature.withDependency "main") (.subWorkflow callee)) := rfl
  rw [compileSpec, show undeclaredCall.depth = 5 from rfl, compileWith_declaringFanOut, hcall,
    declaringSteps, compileWith_callingSteps rfl, bind_assoc, Compiling.within,
    show declaringFanOut.id = "both" from rfl, Compiling.bind_of_ok hmain, pure_bind, bind_assoc,
    Compiling.bind_of_ok (compileAt_of_kept rfl)]
  rfl

/-- The one sequence that the fan-out shows is the one that declares what it calls. -/
theorem eq_declaringSteps_of_shows {n : ModuleSpec} (hn : declaringFanOut.Shows n)
    (htype : n.type = .sequential) : n = declaringSteps := by
  rcases ModuleSpec.shows_iff.1 hn with rfl | ⟨_, c, hc, hn⟩
  · cases htype
  · have hc : c = .call "main" ∨ c = declaringSteps := by
      simpa [declaringFanOut, ModuleSpec.children, Kind.children] using hc
    rcases hc with rfl | rfl
    · rcases ModuleSpec.shows_iff.1 hn with rfl | ⟨_, _, hmem, _⟩
      · cases htype
      · exact absurd hmem List.not_mem_nil
    · rcases ModuleSpec.shows_iff.1 hn with rfl | ⟨hsequential, _⟩
      · rfl
      · exact absurd rfl hsequential

/-- The fan-out depends on what it calls in either way. -/
theorem dependencies_declaringFanOut :
    (undeclaredCall.compileSpec declaringFanOut .empty).1 = .ok declaringModule ∧
      declaringFanOut.references.toList = ["child", "main"] ∧
      ∀ t ∈ declaringFanOut.references.toList,
        t ∈ declaringModule.signature.dependencies.toList := by
  have hsound : (CompileCache.empty.push "both").Sound undeclaredCall := CompileCache.sound_empty _
  have hm : (declaringFanOut.compileWith (undeclaredCall.compileAt undeclaredCall.depth)
      (CompileCache.empty.push "both")).1 = .ok declaringModule :=
    compileSpec_declaringFanOut
  obtain ⟨_, _, hcomplete, _⟩ := dependencies_of_compileWith_eq_ok hsound hm
  refine ⟨compileSpec_declaringFanOut, by decide, hcomplete ?_⟩
  intro n hn htype
  rw [eq_declaringSteps_of_shows hn htype]
  decide

end Resolver

end WorkflowEngine
