import WorkflowEngine.Proofs.Validation.Registries

/-!
# Orders of registering and of looking at references

A registry does not depend on the order in which its specifications have been registered. Whether it
passes validation does not depend on the order in which references are looked at either, but what it
fails with does: of several specifications whose references fail, the one that is looked at first
has its fault reported.
-/

namespace WorkflowEngine

/-! ## Registering in any order -/

namespace Registry

variable {r : Registry}

/-- Registering specifications gives the registry that consists of them and of what has been
registered before; it fails if there is none. -/
theorem registerAll_eq_ok_iff {specs : List ModuleSpec} {r' : Registry} :
    r.registerAll specs = .ok r' ↔ r'.toList.Perm (specs ++ r.toList) := by
  induction specs generalizing r with
  | nil =>
    constructor
    · intro h
      exact Except.ok.inj h ▸ .refl _
    · intro h
      exact congrArg Except.ok (Ascending.eq_of_perm h).symm
  | cons s rest ih =>
    rw [registerAll, List.foldlM_cons, register]
    by_cases hfree : r.contains s.id = true
    · rw [if_pos hfree]
      refine iff_of_false nofun fun h => ?_
      obtain ⟨s', hs'⟩ := Ascending.contains_iff.1 hfree
      obtain ⟨hmem, hid⟩ := Ascending.find?_eq_some_iff.1 hs'
      have hnodup : ((s :: rest ++ r.toList).map ModuleSpec.id).Nodup :=
        (h.map ModuleSpec.id).nodup_iff.1 r'.nodup_keys
      rw [List.cons_append, List.map_cons, List.nodup_cons] at hnodup
      exact hnodup.1 (hid ▸ List.mem_map_of_mem (List.mem_append_right rest hmem))
    · rw [if_neg hfree]
      have hinsert := Ascending.perm_toList_insert (Bool.eq_false_iff.2 hfree)
      have hmiddle : (rest ++ (r.insert s).toList).Perm (s :: rest ++ r.toList) :=
        (hinsert.append_left rest).trans List.perm_middle
      exact ih.trans ⟨fun h => h.trans hmiddle, fun h => h.trans hmiddle.symm⟩

/-- A registry is made of exactly the specifications, in an order of its own. -/
theorem ofSpecs_eq_ok_iff {specs : List ModuleSpec} :
    ofSpecs specs = .ok r ↔ r.toList.Perm specs := by
  rw [ofSpecs, registerAll_eq_ok_iff]
  exact Eq.to_iff (congrArg r.toList.Perm (List.append_nil specs))

/-! ## Looking at references in any order -/

/-- Whether all specifications whose references fail have the same fault. -/
def FailsAlike (r : Registry) : Prop :=
  ∀ s ∈ r.toList, ∀ s' ∈ r.toList, ∀ e e',
    r.checkReferences s = .error e → r.checkReferences s' = .error e' → e = e'

/-- A specification that fails by itself is reported before any reference is looked at. -/
theorem validateIn_eq_of_invalid {s : ModuleSpec} (hs : s ∈ r.toList) (h : s.validate ≠ .ok ())
    (order order' : List ModuleSpec) : r.validateIn order = r.validateIn order' := by
  unfold validateIn
  cases hnodes : firstFailure (r.toList.map ModuleSpec.validate) with
  | error e => rfl
  | ok u =>
    have hall := (firstFailure_eq_ok_iff _).1 hnodes
    exact absurd (hall _ (List.mem_map_of_mem hs)) h

/-- Where all faults are the same it does not matter which is found first. -/
theorem FailsAlike.firstFailure_eq (h : r.FailsAlike) {order order' : List ModuleSpec}
    (horder : order.Perm r.toList) (horder' : order'.Perm r.toList) :
    firstFailure (order.map r.checkReferences) = firstFailure (order'.map r.checkReferences) := by
  have hperm := (horder.trans horder'.symm).map r.checkReferences
  cases hfirst : firstFailure (order.map r.checkReferences) with
  | ok u =>
    have hall := (firstFailure_eq_ok_iff _).1 hfirst
    exact ((firstFailure_eq_ok_iff _).2 fun c hc => hall c (hperm.mem_iff.2 hc)).symm
  | error e =>
    have hmem := mem_of_firstFailure_eq_error hfirst
    cases hfirst' : firstFailure (order'.map r.checkReferences) with
    | ok u =>
      have hok := (firstFailure_eq_ok_iff _).1 hfirst' _ (hperm.mem_iff.1 hmem)
      exact nomatch hok
    | error e' =>
      obtain ⟨s, hs, he⟩ := List.mem_map.1 hmem
      obtain ⟨s', hs', he'⟩ := List.mem_map.1 (mem_of_firstFailure_eq_error hfirst')
      exact congrArg Except.error
        (h s (horder.mem_iff.1 hs) s' (horder'.mem_iff.1 hs') e e' he he')

/-- Whichever specification is looked at first has its fault reported. -/
theorem exists_validateIn_eq_error (hvalid : ∀ s ∈ r.toList, s.validate = .ok ()) {s : ModuleSpec}
    (hs : s ∈ r.toList) {e : Error} (h : r.checkReferences s = .error e) :
    ∃ order, order.Perm r.toList ∧ r.validateIn order = .error e := by
  obtain ⟨before, after, hlist⟩ := List.append_of_mem hs
  have hnodes : firstFailure (r.toList.map ModuleSpec.validate) = .ok () := by
    rw [firstFailure_eq_ok_iff, List.forall_mem_map]
    exact hvalid
  refine ⟨s :: (before ++ after), hlist ▸ List.perm_middle.symm, ?_⟩
  rw [validateIn, hnodes, List.map_cons, h]
  rfl

/-- What the order of the specifications has to do with the validation of a registry:

1. whether the registry passes does not depend on the order in which references are looked at;
2. the whole answer does not depend on it just if some specification fails by itself, or if all
   specifications whose references fail have the same fault;
3. if every specification passes by itself, each of these faults is reported in some order;
4. in whatever order specifications are registered, the registry is the same. -/
theorem validateIn_orders (r : Registry) :
    (∀ order order' : List ModuleSpec, order.Perm r.toList → order'.Perm r.toList →
      (r.validateIn order = .ok () ↔ r.validateIn order' = .ok ())) ∧
    ((∀ order order' : List ModuleSpec, order.Perm r.toList → order'.Perm r.toList →
        r.validateIn order = r.validateIn order') ↔
      (∃ s ∈ r.toList, s.validate ≠ .ok ()) ∨ r.FailsAlike) ∧
    ((∀ s ∈ r.toList, s.validate = .ok ()) → ∀ s ∈ r.toList, ∀ e,
      r.checkReferences s = .error e →
        ∃ order, order.Perm r.toList ∧ r.validateIn order = .error e) ∧
    ∀ specs specs' : List ModuleSpec, specs.Perm specs' →
      (ofSpecs specs = .ok r ↔ ofSpecs specs' = .ok r) := by
  refine ⟨?_, ⟨?_, ?_⟩, ?_, ?_⟩
  · intro order order' horder horder'
    exact (validateIn_eq_ok_iff horder).trans (validateIn_eq_ok_iff horder').symm
  · intro hsame
    by_cases hvalid : ∀ s ∈ r.toList, s.validate = .ok ()
    · right
      intro s hs s' hs' e e' he he'
      obtain ⟨order, horder, hfails⟩ := exists_validateIn_eq_error hvalid hs he
      obtain ⟨order', horder', hfails'⟩ := exists_validateIn_eq_error hvalid hs' he'
      have herror := hsame order order' horder horder'
      rw [hfails, hfails'] at herror
      exact Except.error.inj herror
    · left
      simpa using hvalid
  · rintro (⟨s, hs, hinvalid⟩ | halike) order order' horder horder'
    · exact validateIn_eq_of_invalid hs hinvalid order order'
    · unfold validateIn
      rw [halike.firstFailure_eq horder horder']
  · intro hvalid s hs e he
    exact exists_validateIn_eq_error hvalid hs he
  · intro specs specs' hperm
    rw [ofSpecs_eq_ok_iff, ofSpecs_eq_ok_iff]
    exact ⟨fun h => h.trans hperm, fun h => h.trans hperm.symm⟩

/-- Two specifications that refer to one name each, neither of which is registered. -/
def strays : Registry :=
  ⟨[.mk "a" .empty (.subWorkflow "x"), .mk "b" .empty (.subWorkflow "y")],
    List.pairwise_pair.2 (by decide)⟩

/-- The name that is reported is that of the specification that is looked at first. -/
theorem strays_disagree :
    strays.toList.reverse.Perm strays.toList ∧
      strays.validateIn strays.toList = .error (.unresolvedReference "x") ∧
      strays.validateIn strays.toList.reverse = .error (.unresolvedReference "y") ∧
      strays.validateIn strays.toList ≠ strays.validateIn strays.toList.reverse := by
  have hfirst : strays.validateIn strays.toList = .error (.unresolvedReference "x") := rfl
  have hlast : strays.validateIn strays.toList.reverse = .error (.unresolvedReference "y") := rfl
  refine ⟨List.reverse_perm strays.toList, hfirst, hlast, ?_⟩
  rw [hfirst, hlast]
  intro h
  have hname : "x" = "y" := Error.unresolvedReference.inj (Except.error.inj h)
  exact absurd hname (by decide)

/-- Two specifications with different faults do not fail alike, so their order matters; registered
the other way round they are the same registry. -/
theorem validateIn_orders_strays :
    ofSpecs strays.toList.reverse = .ok strays ∧
      ∃ order, order.Perm strays.toList ∧
        strays.validateIn order = .error (.unresolvedReference "y") := by
  obtain ⟨-, -, hreported, hregistered⟩ := validateIn_orders strays
  have hvalid : ∀ s ∈ strays.toList, s.validate = .ok () := by
    rw [← List.forall_mem_map (P := (· = Except.ok ())), ← firstFailure_eq_ok_iff]
    rfl
  refine ⟨(hregistered strays.toList _ (List.reverse_perm _).symm).1 rfl, ?_⟩
  exact hreported hvalid _ (List.mem_cons_of_mem _ List.mem_cons_self) _ rfl

end Registry

end WorkflowEngine
