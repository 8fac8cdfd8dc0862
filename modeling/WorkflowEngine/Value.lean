import WorkflowEngine.Payload

/-!
# Named values

A value is a payload under a declaration: a name, a type, and whether it may stay unbound. The
values that a workflow has gathered so far form a list in which merging replaces a value of the same
name in place. The lemmas give the look-up after each operation.
-/

namespace WorkflowEngine

/-- The declaration of a value. -/
structure ValueSpec where
  /-- Name under which the value is looked up. -/
  name : String
  /-- The expected shape. -/
  type : ValueType
  /-- Whether the value may stay unbound even where every input is required. -/
  optional : Bool
  deriving DecidableEq, Repr, Inhabited

namespace ValueSpec

/-- A declaration of a value that has to be bound. -/
def required (name : String) (type : ValueType) : ValueSpec := ⟨name, type, false⟩

/-- The text of a declaration: the name, a mark if it may stay unbound, and the type. -/
def text (s : ValueSpec) : String :=
  s.name ++ (if s.optional then "?" else "") ++ ": " ++ s.type.name

end ValueSpec

/-- A named datum. -/
structure Value where
  /-- The declaration. -/
  spec : ValueSpec
  /-- The content. -/
  payload : Payload
  deriving DecidableEq, Repr, Inhabited

namespace Value

/-- The name of a value. -/
def name (v : Value) : String := v.spec.name

/-- A text under a name. -/
def ofText (name text : String) : Value := ⟨.required name .string, .string text⟩

/-- An integer under a name. -/
def ofInteger (name : String) (i : Int64) : Value := ⟨.required name .integer, .integer i⟩

/-- The same content under another declaration. -/
def rebind (v : Value) (s : ValueSpec) : Value := { v with spec := s }

end Value

/-- An ordered collection of values; the first value of a name is the one bound to it. -/
structure ValueSet where
  /-- The values in their order. -/
  toList : List Value
  deriving DecidableEq, Repr, Inhabited

namespace ValueSet

/-- The collection without values. -/
def empty : ValueSet := ⟨[]⟩

/-- The first value of a name. -/
def get? (s : ValueSet) (name : String) : Option Value := s.toList.find? fun v => v.name == name

/-- Whether a name is bound. -/
def contains (s : ValueSet) (name : String) : Bool := (s.get? name).isSome

/-- Replaces the first value of the same name, or appends. -/
def place (v : Value) : List Value → List Value
  | [] => [v]
  | w :: rest => if w.name = v.name then v :: rest else w :: place v rest

/-- Binds a value to its name; the later value wins, at the place of the earlier one. -/
def merge (s : ValueSet) (v : Value) : ValueSet := ⟨place v s.toList⟩

/-- Binds values one after the other. -/
def mergeAll (s : ValueSet) (vs : List Value) : ValueSet := vs.foldl merge s

/-- The values that are declared, in the order of the declarations and under them; a declaration
that nothing is bound to is passed over. -/
def project (s : ValueSet) (specs : List ValueSpec) : List Value :=
  specs.filterMap fun spec => (s.get? spec.name).map fun v => v.rebind spec

/-- The declared names that nothing is bound to. -/
def missing (s : ValueSet) (specs : List ValueSpec) : List String :=
  (specs.filter fun spec => !s.contains spec.name).map ValueSpec.name

/-- Number of values. -/
def size (s : ValueSet) : Nat := s.toList.length

/-- Whether there are no values. -/
def isEmpty (s : ValueSet) : Bool := s.toList.isEmpty

@[simp] theorem get?_empty (name : String) : empty.get? name = none := rfl

/-- A merged value is the one bound to its name. -/
@[simp] theorem get?_merge_self (s : ValueSet) (v : Value) : (s.merge v).get? v.name = some v := by
  obtain ⟨l⟩ := s
  simp only [get?, merge]
  induction l with
  | nil => simp [place]
  | cons w rest ih =>
    unfold place
    split
    · simp
    · next h => simp [h, ih]

/-- Merging leaves the look-up of every other name alone. -/
theorem get?_merge_of_ne {s : ValueSet} {v : Value} {name : String} (h : v.name ≠ name) :
    (s.merge v).get? name = s.get? name := by
  obtain ⟨l⟩ := s
  simp only [get?, merge]
  induction l with
  | nil => simp [place, h]
  | cons w rest ih =>
    unfold place
    split
    · next hw => simp [hw, h]
    · simp [List.find?_cons, ih]

/-- What is bound to a name after several merges: the last merged value of that name, or what was
bound to it before. -/
theorem get?_mergeAll (s : ValueSet) (vs : List Value) (name : String) :
    (s.mergeAll vs).get? name =
      ((vs.reverse.find? fun v => v.name == name).or (s.get? name)) := by
  induction vs generalizing s with
  | nil => simp [mergeAll]
  | cons v rest ih =>
    have h := ih (s.merge v)
    simp only [mergeAll, List.foldl_cons] at h ⊢
    rw [h, List.reverse_cons, List.find?_append]
    by_cases hv : v.name = name
    · subst hv
      simp
    · simp [hv, get?_merge_of_ne hv]

end ValueSet

end WorkflowEngine
