import WorkflowEngine.Proofs.Runs.Resolution

/-!
# What names are bound to

The values that a composite can draw on form a list, in which a name may come twice. All that counts
is what the list binds each name to: from this alone inputs are resolved and outputs gathered, and
merging values overrides it.
-/

namespace WorkflowEngine

/-- Of items with different keys a key finds the same in any order. -/
theorem find?_key_perm {α κ : Type} [DecidableEq κ] {key : α → κ} {items items' : List α}
    (hperm : items.Perm items') (hnodup : (items.map key).Nodup) (k : κ) :
    (items.find? fun a => key a = k) = items'.find? fun a => key a = k := by
  induction hperm with
  | nil => rfl
  | cons a _ ih =>
    rw [List.map_cons, List.nodup_cons] at hnodup
    rw [List.find?_cons, List.find?_cons, ih hnodup.2]
  | swap a b rest =>
    -- Only one of the two can fit, since their keys are different.
    have hdiffer : key b ≠ key a := fun h => by simp [h] at hnodup
    rw [List.find?_cons, List.find?_cons, List.find?_cons, List.find?_cons]
    by_cases ha : key a = k
    · have hb : key b ≠ k := fun h => hdiffer (h.trans ha.symm)
      simp [ha, hb]
    · simp [ha]
  | trans hfirst _ ih ih' =>
    exact (ih hnodup).trans (ih' ((hfirst.map key).nodup_iff.1 hnodup))

/-- What each name is bound to. -/
def Bindings := String → Option Payload

namespace Bindings

/-- The first value of a name is the one bound to it. -/
def ofList (values : List Value) : Bindings :=
  fun name => (values.find? fun v => v.name == name).map Value.payload

/-- Values of different names bind them alike in any order. -/
theorem ofList_perm {values values' : List Value} (hperm : values.Perm values')
    (hnodup : (values.map Value.name).Nodup) : ofList values = ofList values' :=
  funext fun name => congrArg (Option.map Value.payload) (find?_key_perm hperm hnodup name)

/-- Values override what their names were bound to; of the values of one name the last one does. -/
def override (b : Bindings) (values : List Value) : Bindings :=
  fun name => ((values.reverse.find? fun v => v.name == name).map Value.payload).or (b name)

/-- What is bound to the sources of declarations, in their order and under them. -/
def take (b : Bindings) (mapping : Dictionary String) (specs : List ValueSpec) : List Value :=
  specs.filterMap fun spec => (b (sourceName mapping spec)).map fun p => ⟨spec, p⟩

/-- The first declaration that is required and to whose source nothing is bound. -/
def lack? (b : Bindings) (mapping : Dictionary String) (specs : List ValueSpec) :
    Option ValueSpec :=
  specs.find? fun spec => !spec.optional && (b (sourceName mapping spec)).isNone

/-- The inputs of a child. Under the strict policy none that is required may lack. -/
def resolve (b : Bindings) (child : ModuleId) (mapping : Dictionary String) (policy : InputPolicy)
    (specs : List ValueSpec) : Except Error (List Value) :=
  match policy, b.lack? mapping specs with
  | .strict, some spec =>
    .error (.unresolvedInput (child ++ "." ++ spec.name) (sourceName mapping spec))
  | _, _ => .ok (b.take mapping specs)

/-- The declared outputs, each with what is bound to its name. Under the strict policy each must be
bound. -/
def gather (b : Bindings) (id : ModuleId) (policy : InputPolicy) (declared : List ValueSpec) :
    Except Error (List Value) :=
  match policy, declared.find? fun spec => (b spec.name).isNone with
  | .strict, some spec => .error (.missingOutput (id ++ "." ++ spec.name))
  | _, _ => .ok (b.take .empty declared)

section Cons

variable {b : Bindings} {mapping : Dictionary String} {spec : ValueSpec} (rest : List ValueSpec)

/-- What is bound to the source of a declaration is taken under it. -/
theorem take_cons_of_some {p : Payload} (h : b (sourceName mapping spec) = some p) :
    b.take mapping (spec :: rest) = ⟨spec, p⟩ :: b.take mapping rest := by
  simp only [take, List.filterMap_cons, h, Option.map_some]

theorem take_cons_of_none (h : b (sourceName mapping spec) = none) :
    b.take mapping (spec :: rest) = b.take mapping rest := by
  simp only [take, List.filterMap_cons, h, Option.map_none]

theorem lack?_cons_of_some {p : Payload} (h : b (sourceName mapping spec) = some p) :
    b.lack? mapping (spec :: rest) = b.lack? mapping rest := by
  simp only [lack?, List.find?_cons, h, Option.isNone_some, Bool.and_false]

/-- A declaration to whose source nothing is bound lacks unless it is optional. -/
theorem lack?_cons_of_none (h : b (sourceName mapping spec) = none) :
    b.lack? mapping (spec :: rest) =
      if spec.optional then b.lack? mapping rest else some spec := by
  simp only [lack?, List.find?_cons, h, Option.isNone_none, Bool.and_true]
  cases spec.optional <;> rfl

end Cons

section OfList

variable {values : List Value} {v : Value} {name : String}

theorem ofList_cons_self : ofList (v :: values) v.name = some v.payload := by
  simp only [ofList, List.find?_cons, beq_self_eq_true, Option.map_some]

/-- A value does not matter to other names than its own. -/
theorem ofList_cons_of_ne (h : v.name ≠ name) : ofList (v :: values) name = ofList values name := by
  simp only [ofList, List.find?_cons, beq_false_of_ne h]

/-- A list binds the names of its values. -/
theorem ofList_eq_none_iff : ofList values name = none ↔ name ∉ values.map Value.name := by
  rw [ofList, Option.map_eq_none_iff, List.find?_eq_none, List.mem_map]
  simp only [beq_iff_eq, not_exists, not_and]

end OfList

/-- Among what is taken, declared names are bound to what they were bound to, and no others are. -/
theorem ofList_take (b : Bindings) (specs : List ValueSpec) (name : String) :
    ofList (b.take .empty specs) name =
      if name ∈ specs.map ValueSpec.name then b name else none := by
  induction specs with
  | nil => rfl
  | cons spec rest ih =>
    by_cases hname : spec.name = name
    · subst hname
      rw [if_pos (List.mem_map_of_mem List.mem_cons_self)]
      cases hb : b spec.name with
      | some p =>
        rw [take_cons_of_some rest hb]
        exact ofList_cons_self
      | none =>
        -- What a later declaration of the name takes is not bound either.
        rw [take_cons_of_none rest hb, ih, hb, ite_self]
    · have hmem : name ∈ (spec :: rest).map ValueSpec.name ↔ name ∈ rest.map ValueSpec.name := by
        rw [List.map_cons, List.mem_cons]
        exact or_iff_right fun h => hname h.symm
      rw [if_congr hmem rfl rfl, ← ih]
      cases hb : b spec.name with
      | some p =>
        rw [take_cons_of_some rest hb]
        exact ofList_cons_of_ne hname
      | none => rw [take_cons_of_none rest hb]

/-- The same is taken exactly if the declared names are bound alike. -/
theorem take_eq_take_iff {b b' : Bindings} {specs : List ValueSpec} :
    b.take .empty specs = b'.take .empty specs ↔ ∀ spec ∈ specs, b spec.name = b' spec.name := by
  constructor
  · intro h spec hspec
    have hname := congrArg (ofList · spec.name) h
    simp only [ofList_take, if_pos (List.mem_map_of_mem hspec)] at hname
    exact hname
  · intro h
    apply List.filterMap_congr
    intro spec hspec
    rw [sourceName_empty, h spec hspec]

/-- Of the values of one name the first one overrides if they come the other way round. -/
theorem override_reverse_apply (b : Bindings) (values : List Value) (name : String) :
    b.override values.reverse name = (ofList values name).or (b name) := by
  rw [override, List.reverse_reverse]
  rfl

/-- Which value of a name overrides makes no difference exactly if the first has the content of the
last. -/
theorem override_reverse_apply_eq_iff {b : Bindings} {values : List Value} {name : String} :
    b.override values.reverse name = b.override values name ↔
      ofList values name = ofList values.reverse name := by
  have hnone : ofList values name = none ↔ ofList values.reverse name = none := by
    rw [ofList_eq_none_iff, ofList_eq_none_iff, List.map_reverse, List.mem_reverse]
  have hlast : b.override values name = (ofList values.reverse name).or (b name) := rfl
  rw [override_reverse_apply, hlast]
  cases hfirst : ofList values name with
  | none => rw [hnone.1 hfirst]
            exact iff_of_true rfl rfl
  | some p =>
    obtain ⟨p', hp'⟩ := Option.ne_none_iff_exists'.1 fun h => by
      rw [hnone.2 h] at hfirst
      cases hfirst
    rw [hp', Option.some_or, Option.some_or]

/-- So what is taken differs exactly if a declared name has different first and last values. -/
theorem take_override_reverse_eq_iff (b : Bindings) (values : List Value)
    (specs : List ValueSpec) :
    (b.override values.reverse).take .empty specs = (b.override values).take .empty specs ↔
      ∀ spec ∈ specs, ofList values spec.name = ofList values.reverse spec.name := by
  rw [take_eq_take_iff]
  exact forall₂_congr fun spec _ => override_reverse_apply_eq_iff

end Bindings

namespace ValueSet

/-- What a collection of values binds names to. -/
def bindings (s : ValueSet) : Bindings := fun name => (s.get? name).map Value.payload

/-- To project is to take what names are bound to. -/
theorem project_eq_take (s : ValueSet) (specs : List ValueSpec) :
    s.project specs = s.bindings.take .empty specs := by
  unfold project Bindings.take bindings
  simp only [Option.map_map]
  rfl

/-- A collection of values binds what the list of them binds. -/
theorem bindings_mk (values : List Value) : bindings ⟨values⟩ = .ofList values := rfl

/-- Merging overrides, whether or not a name comes twice in the collection. -/
theorem bindings_mergeAll (s : ValueSet) (values : List Value) :
    (s.mergeAll values).bindings = s.bindings.override values := by
  funext name
  rw [bindings, get?_mergeAll, Option.map_or]
  rfl

end ValueSet

/-- Resolving depends on what names are bound to only. -/
theorem resolveInputs_eq_resolve (child : ModuleId) (mapping : Dictionary String)
    (policy : InputPolicy) (available : ValueSet) (specs : List ValueSpec) :
    resolveInputs child mapping policy available specs =
      available.bindings.resolve child mapping policy specs := by
  induction specs with
  | nil => cases policy <;> rfl
  | cons spec rest ih =>
    rw [resolveInputs]
    cases hv : available.get? (sourceName mapping spec) with
    | some v =>
      have hbound : available.bindings (sourceName mapping spec) = some v.payload := by
        rw [ValueSet.bindings, hv, Option.map_some]
      simp only [ih, Bindings.resolve, Bindings.take_cons_of_some rest hbound,
        Bindings.lack?_cons_of_some rest hbound]
      split <;> rfl
    | none =>
      have hfree : available.bindings (sourceName mapping spec) = none := by
        rw [ValueSet.bindings, hv, Option.map_none]
      simp only [ih, Bindings.resolve, Bindings.take_cons_of_none rest hfree,
        Bindings.lack?_cons_of_none rest hfree]
      cases policy <;> cases spec.optional <;> rfl

/-- So does gathering. -/
theorem gatherOutputs_eq_gather (id : ModuleId) (policy : InputPolicy) (declared : List ValueSpec)
    (current : ValueSet) :
    Executable.gatherOutputs id policy declared current =
      current.bindings.gather id policy declared := by
  have hmissing : current.missing declared =
      (declared.filter fun spec => (current.bindings spec.name).isNone).map ValueSpec.name := by
    unfold ValueSet.missing ValueSet.contains ValueSet.bindings
    simp only [Option.isNone_map, Option.not_isSome]
  unfold Executable.gatherOutputs Bindings.gather
  rw [current.project_eq_take, hmissing, ← List.head?_filter]
  cases declared.filter fun spec => (current.bindings spec.name).isNone <;> cases policy <;> rfl

end WorkflowEngine
