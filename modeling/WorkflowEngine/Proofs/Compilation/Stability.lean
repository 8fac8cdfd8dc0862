import WorkflowEngine.Proofs.Compilation.Scripts
import WorkflowEngine.Proofs.Runs.Outputs

/-!
# Writing a compiled signature back

The signature of a compiled module repeats no name on either side, and a name on it is empty only if
the condition of some switch is. To complete it once more changes nothing: what has been derived is
declared by then, a condition is among the inputs, and all dependencies have been gathered. So an
author who writes a compiled signature back into the specification gets the same module again,
whatever has been compiled before, and whether or not references lead to what is rewritten.
-/

namespace WorkflowEngine

/-! ## Completing twice -/

namespace Signature

variable {condition : Option String} {name : String} {input : List ValueSpec}

/-- A side that has been derived is not derived anew. -/
theorem deriveSide_deriveSide (declared : List ValueSpec) (children : List (List ValueSpec)) :
    deriveSide (deriveSide declared children) children = deriveSide declared children := by
  by_cases hside : deriveSide declared children = []
  · have hdeclared : declared = [] := by
      by_contra hne
      rw [deriveSide_of_ne_nil hne] at hside
      exact hne hside
    rw [hdeclared] at hside ⊢
    rw [hside]
    exact hside
  · exact deriveSide_of_ne_nil hside children

/-- A condition is an input. -/
theorem mem_withCondition (name : String) (input : List ValueSpec) :
    name ∈ (withCondition (some name) input).map ValueSpec.name := by
  unfold withCondition
  simp only
  split
  · next hold => exact any_name_iff.1 hold
  · exact List.mem_cons_self

/-- A condition that is among the inputs is not put in front of them. -/
theorem withCondition_of_mem (h : name ∈ input.map ValueSpec.name) :
    withCondition (some name) input = input :=
  if_pos (any_name_iff.2 h)

/-- What is put in front of the inputs has the name of the condition. -/
theorem mem_or_eq_of_mem_withCondition {spec : ValueSpec}
    (h : spec ∈ withCondition condition input) : spec ∈ input ∨ condition = some spec.name := by
  unfold withCondition at h
  split at h
  · split at h
    · exact .inl h
    · rcases List.mem_cons.1 h with rfl | h
      · exact .inr rfl
      · exact .inl h
  · exact .inl h

/-- Inputs that have been completed are complete. -/
theorem withCondition_deriveSide (condition : Option String) (declared : List ValueSpec)
    (children : List (List ValueSpec)) :
    withCondition condition
        (deriveSide (withCondition condition (deriveSide declared children)) children) =
      withCondition condition (deriveSide declared children) := by
  cases condition with
  | none => exact deriveSide_deriveSide declared children
  | some name =>
    have hmem := mem_withCondition name (deriveSide declared children)
    have hne : withCondition (some name) (deriveSide declared children) ≠ [] := by
      intro hnil
      rw [hnil] at hmem
      exact List.not_mem_nil hmem
    rw [deriveSide_of_ne_nil hne, withCondition_of_mem hmem]

/-- Neither is the usual signature of a leaf put in place of what is declared by then. -/
theorem usual_usual (usual declared : Signature) :
    (if (if declared.isEmpty then usual else declared).isEmpty then usual
      else if declared.isEmpty then usual else declared) =
      if declared.isEmpty then usual else declared := by
  by_cases hempty : declared.isEmpty
  · rw [if_pos hempty, ite_self]
  · rw [if_neg hempty, if_neg hempty]

/-- Dependencies that have been gathered are not gathered anew. -/
theorem foldl_dependencies_of_subset {children : List Signature} {all : TextSet}
    (h : ∀ s ∈ children, s.dependencies.toList ⊆ all.toList) :
    children.foldl (fun all s => all.insertAll s.dependencies.toList) all = all := by
  induction children with
  | nil => rfl
  | cons s rest ih =>
    rw [List.foldl_cons, TextSet.insertAll_of_subset (h s List.mem_cons_self)]
    exact ih fun s' hs' => h s' (List.mem_cons_of_mem s hs')

/-- The complete signature of a composite is complete. -/
theorem composite_composite (declared : Signature) (condition : Option String)
    (children : List Signature) :
    (declared.composite condition children).composite condition children =
      declared.composite condition children := by
  have hdependencies : ∀ s ∈ children,
      s.dependencies.toList ⊆ (declared.composite condition children).dependencies.toList := by
    intro s hs name hname
    exact (TextSet.mem_foldl_insertAll dependencies children declared.dependencies name).2
      (.inr ⟨s, hs, hname⟩)
  rw [composite, foldl_dependencies_of_subset hdependencies]
  simp only [composite, withCondition_deriveSide, deriveSide_deriveSide]

end Signature

/-! ## Conditions -/

/-- The condition of a switch. -/
def Kind.condition? {ρ α : Type} : Kind ρ α → Option String
  | .switch condition _ _ => some condition
  | _ => none

@[simp] theorem Kind.condition?_map {ρ σ α β : Type} (f : ρ → σ) (g : α → β) (k : Kind ρ α) :
    (k.map f g).condition? = k.condition? := by
  cases k <;> rfl

/-- The conditions of all switches inside a specification, in the order in which they stand. -/
def ModuleSpec.conditions : ModuleSpec → List String :=
  fold fun _ _ k => k.condition?.toList ++ k.children.flatten

/-- The conditions of a module are its own and those of its children. -/
theorem ModuleSpec.conditions_mk (id : ModuleId) (signature : Signature)
    (kind : Kind ModuleId ModuleSpec) :
    conditions (.mk id signature kind) =
      kind.condition?.toList ++ kind.children.flatMap conditions := by
  rw [conditions, fold_mk, Kind.condition?_map, Kind.children_map, List.flatMap_def]

/-- No condition is empty, neither in a specification nor in those that it reaches. -/
structure Resolver.NamesConditions (r : Resolver) (s : ModuleSpec) : Prop where
  /-- None in the specification itself. -/
  own : "" ∉ s.conditions
  /-- None in a specification that one of its targets reaches. -/
  reached : ∀ t ∈ s.targets, ∀ x, r.Reaches t x → ∀ s', r.get? x = some s' → "" ∉ s'.conditions

namespace Resolver.NamesConditions

variable {r : Resolver} {id : ModuleId} {signature : Signature} {kind : Kind ModuleId ModuleSpec}

/-- No condition is empty if none is in the specification and in any that has a name. -/
theorem of_forall {s : ModuleSpec} (hs : "" ∉ s.conditions)
    (h : ∀ p ∈ r.toList, "" ∉ p.2.conditions) : r.NamesConditions s := by
  refine ⟨hs, fun _ _ x _ s' hs' => ?_⟩
  obtain ⟨p, hp, rfl⟩ := Option.map_eq_some_iff.1 hs'
  exact h p (Ascending.find?_eq_some_iff.1 hp).1

/-- The condition of a module has a name. -/
theorem condition_ne (h : r.NamesConditions (.mk id signature kind)) :
    kind.condition? ≠ some "" := by
  intro hcondition
  apply h.own
  rw [ModuleSpec.conditions_mk, hcondition]
  exact List.mem_cons_self

theorem child (h : r.NamesConditions (.mk id signature kind)) {c : ModuleSpec}
    (hc : c ∈ kind.children) : r.NamesConditions c where
  own := fun hmem => by
    apply h.own
    rw [ModuleSpec.conditions_mk]
    exact List.mem_append_right _ (List.mem_flatMap.2 ⟨c, hc, hmem⟩)
  reached := fun t ht => by
    apply h.reached t
    rw [ModuleSpec.targets_mk]
    exact List.mem_append_right _ (List.mem_flatMap.2 ⟨c, hc, ht⟩)

theorem target (h : r.NamesConditions (.mk id signature kind)) {t : ModuleId}
    (ht : t ∈ kind.target?) {s : ModuleSpec} (hs : r.get? t = some s) : r.NamesConditions s := by
  have hmem : t ∈ (ModuleSpec.mk id signature kind).targets := by
    rw [ModuleSpec.targets_mk]
    exact List.mem_append_left _ (Option.mem_toList.2 ht)
  refine ⟨h.reached t hmem t .refl s hs, ?_⟩
  intro t' ht' x hx
  exact h.reached t hmem x (hx.head (refers_of_mem_targets hs ht'))

end Resolver.NamesConditions

namespace Signature

/-- If everything on a side has a name, no name on it is empty. -/
theorem notMem_map_name {side : List ValueSpec} (h : ∀ spec ∈ side, spec.name ≠ "") :
    "" ∉ side.map ValueSpec.name := by
  intro hmem
  obtain ⟨spec, hspec, hname⟩ := List.mem_map.1 hmem
  exact h spec hspec hname

/-- What is declared or derived from proper names has a name. -/
theorem name_ne_of_mem_deriveSide {declared : List ValueSpec} {children : List (List ValueSpec)}
    (hdeclared : ∀ spec ∈ declared, spec.name ≠ "")
    (hchildren : ∀ side ∈ children, ∀ spec ∈ side, spec.name ≠ "") {spec : ValueSpec}
    (h : spec ∈ deriveSide declared children) : spec.name ≠ "" := by
  by_cases hnil : declared = []
  · rw [hnil] at h
    obtain ⟨side, hside, hspec⟩ := mem_of_mem_deriveSide_nil h
    exact hchildren side hside spec hspec
  · rw [deriveSide_of_ne_nil hnil] at h
    exact hdeclared spec h

/-- The complete signature of a composite has proper names if the declared one and those of the
children have and the condition is not empty. -/
theorem ProperNames.composite {declared : Signature} (h : declared.ProperNames)
    {condition : Option String} (hcondition : condition ≠ some "") {children : List Signature}
    (hchildren : ∀ s ∈ children, s.ProperNames) :
    (declared.composite condition children).ProperNames := by
  obtain ⟨hinput, houtput⟩ := Module.nodup_composite h condition children
  refine ⟨?_, hinput, ?_, houtput⟩
  · intro spec hspec
    rcases mem_or_eq_of_mem_withCondition hspec with hspec | rfl
    · refine name_ne_of_mem_deriveSide h.input_ne ?_ hspec
      exact List.forall_mem_map.2 fun s hs => (hchildren s hs).input_ne
    · exact fun hname => hcondition (congrArg some hname)
  · intro spec hspec
    refine name_ne_of_mem_deriveSide h.output_ne ?_ hspec
    exact List.forall_mem_map.2 fun s hs => (hchildren s hs).output_ne

end Signature

/-- The names of a compiled signature are proper unless a condition is empty. -/
theorem ModuleSpec.Yields.properNames {r : Resolver} {s : ModuleSpec} {m : Module}
    (h : s.Yields r m) (hconditions : r.NamesConditions s) : m.signature.ProperNames := by
  refine ModuleSpec.Yields.induct (Q := fun s m => r.NamesConditions s → m.signature.ProperNames)
    ?_ h hconditions
  intro id signature kind kind' hself hrel hconditions
  have hchildren : ∀ n ∈ kind'.children, n.signature.ProperNames := by
    intro n hn
    obtain ⟨c, hc, -, hproper⟩ := exists_mem_of_forall₂ hrel.children hn
    exact hproper (hconditions.child hc)
  have hbelow : ∀ s ∈ kind'.children.map Module.signature, s.ProperNames :=
    List.forall_mem_map.2 hchildren
  have hcondition := hconditions.condition_ne
  rw [Module.signature_mk]
  cases hrel with
  | sequential _ | llm _ | tool _ => exact hself.names
  | parallel _ =>
    have hnone : (none : Option String) ≠ some "" := nofun
    exact hself.names.composite hnone hbelow
  | switch condition _ _ => exact hself.names.composite hcondition hbelow
  | subWorkflow htarget =>
    obtain ⟨s, hs, -, hproper⟩ := htarget
    obtain ⟨hi, hin, ho, hon⟩ := hproper (hconditions.target rfl hs)
    exact ⟨hi, hin, ho, hon⟩
  | http =>
    rw [Signature.completed]
    split
    · exact ⟨by decide, by decide, by decide, by decide⟩
    · exact hself.names
  | jsonExtract path =>
    rw [Signature.completed]
    split
    · exact ⟨by decide, by decide, by decide, by decide⟩
    · exact hself.names

/-- A compiled switch has its condition among its inputs. -/
theorem ModuleSpec.Yields.condition_mem {r : Resolver} {s : ModuleSpec} {m : Module}
    (h : s.Yields r m) {condition : String} (hcondition : s.kind.condition? = some condition) :
    condition ∈ m.signature.inputNames := by
  obtain ⟨id, signature, kind⟩ := s
  obtain ⟨-, kind', hrel, rfl⟩ := ModuleSpec.yields_mk_iff.1 h
  cases hrel with
  | switch _ _ _ =>
    cases hcondition
    exact Signature.mem_withCondition condition _
  | sequential _ | parallel _ | subWorkflow _ | llm _ | tool _ | http | jsonExtract _ =>
    cases hcondition

/-! ## Compiling twice -/

namespace Compiling

variable {α β : Type} {x : Compiling α} {f : α → Compiling β} {cache cache' : CompileCache} {b : β}

/-- Steps that end with a result have one each. -/
theorem exists_of_bind_eq_ok (h : (x >>= f) cache = (.ok b, cache')) :
    ∃ a middle, x cache = (.ok a, middle) ∧ f a middle = (.ok b, cache') := by
  cases hrun : x cache with
  | mk outcome middle =>
    cases outcome with
    | error e =>
      rw [bind_of_error hrun] at h
      cases h
    | ok a =>
      rw [bind_of_ok hrun] at h
      exact ⟨a, middle, rfl, h⟩

end Compiling

namespace ModuleSpec

/-- A specification with another signature in place of the declared one. -/
def withSignature (s : ModuleSpec) (signature : Signature) : ModuleSpec := .mk s.id signature s.kind

variable {reference : ModuleId → Compiling Module} {id : ModuleId} {signature : Signature}
  {m : Module} {cache cache' : CompileCache}

/-- A leaf keeps the signature it is compiled with. -/
theorem signature_of_compileLeaf_eq_ok {kind : Kind Module Module}
    (h : (compileLeaf id signature kind : Compiling Module) cache = (.ok m, cache')) :
    m.signature = signature := by
  obtain ⟨_, _, _, h⟩ := Compiling.exists_of_bind_eq_ok h
  cases h
  rfl

/-- A module compiles again under the signature that it has been given, to itself. -/
theorem compileKind_signature {kind : Kind ModuleId (Compiling Module)}
    (h : compileKind reference id signature kind cache = (.ok m, cache')) :
    compileKind reference id m.signature kind cache = (.ok m, cache') := by
  -- Whatever a kind makes of a signature, to make it again of the result changes nothing.
  cases kind with
  | sequential steps =>
    obtain ⟨steps', middle, hsteps, hm⟩ := Compiling.exists_of_bind_eq_ok h
    cases hm
    exact h
  | parallel branches =>
    obtain ⟨branches', middle, hbranches, hm⟩ := Compiling.exists_of_bind_eq_ok h
    cases hm
    rw [compileKind, Compiling.bind_of_ok hbranches, Module.signature_mk,
      Signature.composite_composite]
    rfl
  | switch condition cases fallback =>
    obtain ⟨cases', between, hcases, hm⟩ := Compiling.exists_of_bind_eq_ok h
    obtain ⟨fallback', middle, hfallback, hm⟩ := Compiling.exists_of_bind_eq_ok hm
    cases hm
    rw [compileKind, Compiling.bind_of_ok hcases, Compiling.bind_of_ok hfallback,
      Module.signature_mk]
    simp only [Signature.composite_composite]
    rfl
  | subWorkflow target =>
    obtain ⟨callee, middle, hcallee, hm⟩ := Compiling.exists_of_bind_eq_ok h
    cases hm
    rw [compileKind, Compiling.bind_of_ok hcallee]
    rfl
  | llm template =>
    rw [signature_of_compileLeaf_eq_ok h]
    exact h
  | tool name =>
    rw [compileKind] at h
    split at h
    · cases h
    · next hname =>
      rw [signature_of_compileLeaf_eq_ok h, compileKind, if_neg hname]
      exact h
  | http =>
    cases h
    rw [compileKind, Module.signature_mk, Signature.usual_usual]
    rfl
  | jsonExtract path =>
    rw [signature_of_compileLeaf_eq_ok h, compileKind, Signature.usual_usual]
    exact h

/-- A specification compiles alike wherever references are followed alike while a name is being
compiled. -/
theorem compileWith_eq_of_mem_pending {r : Resolver} {reference' : ModuleId → Compiling Module}
    {depth : Nat} {pending : ModuleId} (s : ModuleSpec) (cache : CompileCache)
    (h : ∀ t cache, pending ∈ cache.pending →
      reference' t cache = r.compileAt depth t cache) (hpending : pending ∈ cache.pending) :
    s.compileWith reference' cache = s.compileWith (r.compileAt depth) cache := by
  have halike : Respected fun α _ (x y : Compiling α) => ∀ cache, pending ∈ cache.pending →
      x cache = y cache ∧ pending ∈ (y cache).2.pending := by
    refine ⟨fun a cache hmem => ⟨rfl, hmem⟩, fun fault cache hmem => ⟨rfl, hmem⟩,
      fun {α β _ _ x y f g} hxy hfg cache hmem => ?_⟩
    obtain ⟨heq, hmem'⟩ := hxy cache hmem
    cases hrun : y cache with
    | mk outcome middle =>
      rw [hrun] at heq hmem'
      cases outcome with
      | error e =>
        rw [Compiling.bind_of_error hrun, Compiling.bind_of_error heq]
        exact ⟨rfl, hmem'⟩
      | ok a =>
        rw [Compiling.bind_of_ok hrun, Compiling.bind_of_ok heq]
        exact hfg a middle hmem'
  refine (halike.compileWith ?_ cache hpending).1
  intro t _ cache' hmem
  refine ⟨h t cache' hmem, ?_⟩
  rwa [(r.grows_compileAt depth t cache').pending]

/-- A specification compiles again with the compiled signature in place of the declared one, to the
same module and with the same modules kept, if the names of that signature are proper. -/
theorem compileWith_withSignature {s : ModuleSpec}
    (h : s.compileWith reference cache = (.ok m, cache')) (hproper : m.signature.ProperNames) :
    (s.withSignature m.signature).compileWith reference cache = (.ok m, cache') := by
  obtain ⟨id, signature, kind⟩ := s
  rw [compileWith, fold_mk, compileNode] at h
  obtain ⟨_, middle, hcheck, hkind⟩ := Compiling.exists_of_bind_eq_ok h
  have hmiddle : middle = cache := by
    cases hsignature : signature.check id with
    | ok u =>
      rw [hsignature] at hcheck
      cases hcheck
      rfl
    | error e =>
      rw [hsignature] at hcheck
      cases hcheck
  rw [hmiddle] at hkind
  rw [compileWith, withSignature, fold_mk, compileNode,
    Signature.check_eq_ok_iff_properNames.2 hproper]
  exact compileKind_signature hkind

end ModuleSpec

namespace Resolver

variable {r r' : Resolver} {id x : ModuleId} {depth : Nat} {cache : CompileCache}

theorem size_set {s : ModuleSpec} (hs : r.get? id = some s) (s' : ModuleSpec) :
    Ascending.size (r.set id s') = r.size := by
  have hmem : id ∈ r.keys := mem_keys_of_get? hs
  have hkeys : ∀ k, k ∈ Ascending.keys (r.set id s') ↔ k ∈ r.keys := by
    intro k
    rw [Dictionary.set, Ascending.mem_keys_insert]
    exact or_iff_right_of_imp fun he => he ▸ hmem
  rw [← Ascending.length_keys, ← Ascending.length_keys]
  exact ((List.perm_ext_iff_of_nodup (Ascending.nodup_keys _) r.nodup_keys).2 hkeys).length_eq

/-- While a name is being compiled, it does not matter to what the name is bound. -/
theorem compileAt_eq_of_mem_pending (hsame : ∀ x, x ≠ id → r'.get? x = r.get? x)
    (hid : id ∈ cache.pending) : r'.compileAt depth x cache = r.compileAt depth x cache := by
  induction depth using Nat.strongRecOn generalizing x cache with
  | ind depth ih =>
    cases hkept : cache.done.get? x with
    | some m => rw [compileAt_of_kept hkept, compileAt_of_kept hkept]
    | none =>
      by_cases hx : x ∈ cache.pending
      · rw [compileAt_of_mem hkept hx, compileAt_of_mem hkept hx]
      · have hne : x ≠ id := fun he => hx (he ▸ hid)
        cases hs : r.get? x with
        | none =>
          rw [compileAt_of_none hkept hx hs, compileAt_of_none hkept hx ((hsame x hne).trans hs)]
        | some s =>
          have hs' : r'.get? x = some s := (hsame x hne).trans hs
          cases depth with
          | zero => rw [compileAt_zero hkept hx hs, compileAt_zero hkept hx hs']
          | succ depth =>
            have hrun := s.compileWith_eq_of_mem_pending (cache.push s.id)
              (fun x cache hmem => ih depth (Nat.lt_succ_self depth) hmem)
              (List.mem_append_left _ hid)
            rw [compileAt_succ hkept hx hs, compileAt_succ hkept hx hs', Compiling.within,
              Compiling.within, hrun]

/-- With the compiled signature in place of the one that the resolver has, a name compiles to the
table that it had. -/
theorem compileMain_set_withSignature {s : ModuleSpec} (hs : r.get? s.id = some s) {m : Module}
    (hm : s.Yields r m) (hproper : m.signature.ProperNames) {table : ModuleTable}
    (ht : r.compileMain s.id = .ok table) :
    Resolver.compileMain (r.set s.id (s.withSignature m.signature)) s.id = .ok table := by
  have hs' : Dictionary.get? (r.set s.id (s.withSignature m.signature)) s.id =
      some (s.withSignature m.signature) := Dictionary.get?_set_self r s.id _
  have hsame : ∀ x, x ≠ s.id →
      Dictionary.get? (r.set s.id (s.withSignature m.signature)) x = r.get? x :=
    fun x hx => Dictionary.get?_set_of_ne r _ (Ne.symm hx)
  have hdepth : Resolver.depth (r.set s.id (s.withSignature m.signature)) = r.depth :=
    congrArg (2 * · + 1) (size_set hs _)
  generalize r.set s.id (s.withSignature m.signature) = r' at hs' hsame hdepth ⊢
  have hfresh : CompileCache.empty.done.get? s.id = none := rfl
  have hfree : s.id ∉ CompileCache.empty.pending := List.not_mem_nil
  unfold compileMain compileReference at ht ⊢
  rw [hdepth]
  rw [depth, compileAt_succ hfresh hfree hs] at ht
  rw [depth, compileAt_succ hfresh hfree hs']
  have hpushed : (CompileCache.empty.push s.id).Sound r := CompileCache.sound_empty r
  cases hrun : s.compileWith (r.compileAt (2 * r.size)) (CompileCache.empty.push s.id) with
  | mk outcome middle =>
    rw [Compiling.within, hrun] at ht
    cases outcome with
    | error e => cases ht
    | ok m' =>
      obtain rfl : m = m' :=
        Except.ok.inj (hm.symm.trans (yields_of_compileWith_eq_ok hpushed (congrArg Prod.fst hrun)))
      have hagain := ModuleSpec.compileWith_withSignature hrun hproper
      rw [← (s.withSignature m.signature).compileWith_eq_of_mem_pending
        (CompileCache.empty.push s.id) (fun x cache hmem => compileAt_eq_of_mem_pending hsame hmem)
        (List.mem_append_right _ (List.mem_singleton_self s.id))] at hagain
      rw [Compiling.within, show (s.withSignature m.signature).id = s.id from rfl, hagain]
      exact ht

/-- A specification that compiles, whatever has been compiled before, has a signature that is well
formed and settled:

1. the names on each side are distinct;
2. the condition of a switch is among the inputs;
3. if no condition is empty, neither in the specification nor in those that it reaches, then no name
   is empty, and the specification compiles again with the compiled signature in place of the
   declared one: to the very module that it has, which runs as before on every input, with the same
   modules kept;
4. if references lead to the specification, too, they may lead to the new one instead: a table of
   its own stays what it was. -/
theorem compileSpec_withSignature {s : ModuleSpec} {m : Module} {cache' : CompileCache}
    (hsound : cache.Sound r) (h : r.compileSpec s cache = (.ok m, cache')) :
    (m.signature.inputNames.Nodup ∧ m.signature.outputNames.Nodup) ∧
    (∀ condition, s.kind.condition? = some condition → condition ∈ m.signature.inputNames) ∧
    (r.NamesConditions s →
      ("" ∉ m.signature.inputNames ∧ "" ∉ m.signature.outputNames) ∧
      r.compileSpec (s.withSignature m.signature) cache = (.ok m, cache') ∧
      (r.get? s.id = some s → ∀ table, r.compileMain s.id = .ok table →
        Resolver.compileMain (r.set s.id (s.withSignature m.signature)) s.id = .ok table)) := by
  have hpushed : (cache.push s.id).Sound r := hsound
  have hresult : (s.compileWith (r.compileAt r.depth) (cache.push s.id)).1 = .ok m :=
    congrArg Prod.fst h
  have hm : s.Yields r m := yields_of_compileWith_eq_ok hpushed hresult
  refine ⟨Module.Compiled.nodup_sides ⟨s, hm⟩, fun _ => hm.condition_mem, fun hconditions => ?_⟩
  have hproper := hm.properNames hconditions
  refine ⟨⟨?_, ?_⟩, ?_, fun hs table => compileMain_set_withSignature hs hm hproper⟩
  · exact Signature.notMem_map_name hproper.input_ne
  · exact Signature.notMem_map_name hproper.output_ne
  · unfold compileSpec Compiling.within at h ⊢
    cases hrun : s.compileWith (r.compileAt r.depth) (cache.push s.id) with
    | mk outcome middle =>
      rw [hrun] at h
      cases h
      rw [show (s.withSignature m.signature).id = s.id from rfl,
        ModuleSpec.compileWith_withSignature hrun hproper]

/-- A switch between a fetch by another workflow and an extraction, which declares nothing. -/
def routing : ModuleSpec :=
  .mk "route" .empty
    (.switch "topic" [⟨.string "web", .call "page"⟩] (some (.jsonExtract "pick" "")))

/-- The switch has the inputs and outputs of its branches and, in front, its condition; it compiles
again with these declared, by itself and from a registry. -/
theorem compileSpec_routing_withSignature :
    let r := Registry.resolver (.ofList [routing, .http "page"])
    ∃ m cache table, r.compileSpec routing .empty = (.ok m, cache) ∧
      m.signature.inputNames = ["topic", "url", "method", "json"] ∧
      m.signature.outputNames = ["status", "body", "value"] ∧
      m.signature.inputNames.Nodup ∧ "" ∉ m.signature.inputNames ∧
      r.compileSpec (routing.withSignature m.signature) .empty = (.ok m, cache) ∧
      r.compileMain "route" = .ok table ∧
      Resolver.compileMain (r.set "route" (routing.withSignature m.signature)) "route" =
        .ok table := by
  intro r
  have hnames : (r.compileSpec routing .empty).1.map (fun m =>
      (m.signature.inputNames, m.signature.outputNames)) =
      .ok (["topic", "url", "method", "json"], ["status", "body", "value"]) := by decide +kernel
  have htable : (r.compileMain "route").map Ascending.keys = .ok ["page", "route"] := by
    decide +kernel
  obtain ⟨m, hm, hsides⟩ := map_eq_ok_iff.1 hnames
  obtain ⟨table, ht, -⟩ := map_eq_ok_iff.1 htable
  have h : r.compileSpec routing .empty = (.ok m, (r.compileSpec routing .empty).2) :=
    Prod.ext hm rfl
  have hconditions : r.NamesConditions routing := .of_forall (by decide) (by decide)
  obtain ⟨⟨hnodup, -⟩, -, hagain⟩ := compileSpec_withSignature (CompileCache.sound_empty r) h
  obtain ⟨⟨hne, -⟩, hspec, hmain⟩ := hagain hconditions
  exact ⟨m, _, table, h, congrArg Prod.fst hsides, congrArg Prod.snd hsides, hnodup, hne, hspec, ht,
    hmain rfl table ht⟩

end Resolver

end WorkflowEngine
