import WorkflowEngine.Proofs.Decoding.Presentation
import WorkflowEngine.Spec.Decoding

/-!
# Insertions into the format

The format of specifications consists of objects of five forms. The fields of a module depend on its
type, those of the other forms are fixed; the value of a field is data or consists of further
objects of the format. So a member that is no field can be inserted into an object at any depth:
`Inserts` lists the places.
-/

namespace WorkflowEngine

open Decoding

/-- The objects that the format of specifications consists of. -/
inductive Form where
  /-- A module. -/
  | spec
  /-- A signature. -/
  | signature
  /-- A declaration of a value. -/
  | declaration
  /-- A step of a sequence. -/
  | step
  /-- A case of a switch. -/
  | case
  deriving DecidableEq, Repr

/-- What the value of a field is. -/
inductive Slot where
  /-- Data, in which nothing is an object of the format. -/
  | data
  /-- An object of a form. -/
  | one (form : Form)
  /-- A list of objects of a form. -/
  | many (form : Form)
  deriving DecidableEq, Repr

/-- The fields of a kind of module, in their order. -/
def KindTag.slots : KindTag → List (String × Slot)
  | .sequential => [("steps", .many .step)]
  | .parallel => [("branches", .many .spec)]
  | .switch => [("condition", .data), ("cases", .many .case), ("default", .one .spec)]
  | .subWorkflow => [("target", .data)]
  | .llm => [("template", .data)]
  | .tool => [("tool", .data)]
  | .http => []
  | .jsonExtract => [("field", .data)]

namespace Form

/-- The fields that all objects of a form have, in their order. -/
def slots : Form → List (String × Slot)
  | .spec => [("id", .data), ("signature", .one .signature), ("type", .data)]
  | .signature =>
    [("input", .many .declaration), ("output", .many .declaration), ("dependencies", .data)]
  | .declaration => [("name", .data), ("type", .data), ("optional", .data)]
  | .step => [("module", .one .spec), ("mapping", .data)]
  | .case => [("value", .data), ("module", .one .spec)]

/-- Whether objects of a form may have no members but their fields. -/
def strict : Form → Bool
  | .step | .case => true
  | .spec | .signature | .declaration => false

/-- Whether an object of a form with given members has given fields. -/
inductive HasSlots : Form → List (String × Json) → List (String × Slot) → Prop where
  /-- A module has the fields of its kind beside those of every module. -/
  | spec {members : List (String × Json)} {t : Json} {tag : KindTag} (ht : ("type", t) ∈ members)
    (htag : Kind.readTag (.ofJson t) = .ok tag) :
    HasSlots .spec members (slots .spec ++ tag.slots)
  /-- The fields of other forms are fixed. -/
  | fixed {form : Form} (hform : form ≠ .spec) (members : List (String × Json)) :
    HasSlots form members form.slots

/-- What an object of a form is decoded into. -/
def Result : Form → Type
  | .spec => ModuleSpec
  | .signature => Signature
  | .declaration => ValueSpec
  | .step => Step ModuleSpec
  | .case => Case ModuleSpec

/-- Decodes an object of a form. -/
def read {σ : Type} [Source σ] : (form : Form) → σ → Except Failure form.Result
  | .spec => ModuleSpec.read
  | .signature => Signature.read
  | .declaration => ValueSpec.read
  | .step => Step.read
  | .case => Case.read

end Form

/-- Whether one value comes from another by inserting a member that is no field into an object of
the form `target`, the values being read as the slot says. -/
inductive Inserts (target : Form) : Slot → Json → Json → Prop where
  /-- Into the object itself, at any place and instead of the members of that name. -/
  | here {before old after : List (String × Json)} {slots : List (String × Slot)} {name : String}
    (x : Json) (hslots : target.HasSlots (before ++ old ++ after) slots)
    (hname : slots.lookup name = none) (hold : ∀ m ∈ old, m.1 = name) :
    Inserts target (.one target) (.object (before ++ old ++ after))
      (.object (before ++ (name, x) :: after))
  /-- Into the value of a field. -/
  | member {form : Form} {before after : List (String × Json)} {slots : List (String × Slot)}
    {name : String} {slot : Slot} {v w : Json}
    (hslots : form.HasSlots (before ++ (name, v) :: after) slots)
    (hslot : slots.lookup name = some slot) (h : Inserts target slot v w) :
    Inserts target (.one form) (.object (before ++ (name, v) :: after))
      (.object (before ++ (name, w) :: after))
  /-- Into the value of a field where the fields are given in their order. -/
  | place {form : Form} {before after : List Json} {name : String} {slot : Slot} {v w : Json}
    (hform : form ≠ .spec) (hslot : form.slots[before.length]? = some (name, slot))
    (h : Inserts target slot v w) :
    Inserts target (.one form) (.array (before ++ v :: after)) (.array (before ++ w :: after))
  /-- Into an item of a list. -/
  | item {form : Form} {before after : List Json} {v w : Json}
    (h : Inserts target (.one form) v w) :
    Inserts target (.many form) (.array (before ++ v :: after)) (.array (before ++ w :: after))

end WorkflowEngine
