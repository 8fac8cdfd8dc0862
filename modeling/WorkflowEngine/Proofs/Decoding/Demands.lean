import WorkflowEngine.Spec.Decoding

/-!
# What a document has to give

A part of a document stands for something by the fields under which it stands, and what it stands
for says which fields it has to have. Which fields a module has to have depends on its type besides.
-/

namespace WorkflowEngine

open Decoding

/-- What a part of a document stands for. -/
inductive Role where
  /-- The whole document. -/
  | document
  /-- A module. -/
  | spec
  /-- The signature of a module. -/
  | signature
  /-- The declaration of a value. -/
  | declaration
  /-- A step. -/
  | step
  /-- A case of a switch. -/
  | branch
  /-- A list, by what its items stand for. -/
  | list (item : Role)
  /-- Anything else. -/
  | free
  deriving DecidableEq

namespace Role

/-- What stands under a field; all that stands in a list is an item of it. -/
def field : Role → String → Role
  | .list item, _ => item
  | .document, "modules" => .list .spec
  | .spec, "signature" => .signature
  | .spec, "steps" => .list .step
  | .spec, "branches" => .list .spec
  | .spec, "cases" => .list .branch
  | .spec, "default" => .spec
  | .signature, "input" => .list .declaration
  | .signature, "output" => .list .declaration
  | .step, "module" => .spec
  | .branch, "module" => .spec
  | _, _ => .free

/-- The fields that have to be there in any case. -/
def required : Role → List String
  | .spec => ["id", "type"]
  | .declaration => ["name"]
  | .step => ["module"]
  | .branch => ["value", "module"]
  | _ => []

end Role

/-- The field that a module of a type has to have besides. -/
def KindTag.required? : KindTag → Option String
  | .switch => some "condition"
  | .subWorkflow => some "target"
  | .llm => some "template"
  | .tool => some "tool"
  | .jsonExtract => some "field"
  | .sequential | .parallel | .http => none

/-- What gives a type is neither a list nor a map. -/
theorem Kind.depth_of_readTag {c : Content} {tag : KindTag} (h : Kind.readTag c = .ok tag) :
    c.depth = 0 := by
  cases c with
  | list _ | map _ => cases h
  | null | boolean _ | integer _ | floating _ | text _ => rfl

/-- Whether a record has to have a field, given what may stand under its type. -/
inductive Demands (type : Content → Prop) : Role → String → Prop where
  /-- In any case. -/
  | always {role : Role} {name : String} (h : name ∈ role.required) : Demands type role name
  /-- By the type of a module. -/
  | ofType {c : Content} {tag : KindTag} {name : String} (hc : type c)
    (htag : Kind.readTag c = .ok tag) (h : tag.required? = some name) : Demands type .spec name

/-- All fields that some record has to have. -/
def requiredNames : List String :=
  ["id", "type", "name", "module", "value", "condition", "target", "template", "tool", "field"]

theorem Role.mem_requiredNames {role : Role} {name : String} (h : name ∈ role.required) :
    name ∈ requiredNames := by
  have hall : ∀ role : Role, role.required ⊆ requiredNames := by
    intro role
    cases role <;> simp only [required] <;> decide
  exact hall role h

theorem KindTag.mem_requiredNames {tag : KindTag} {name : String} (h : tag.required? = some name) :
    name ∈ requiredNames := by
  cases tag <;> cases h <;> decide

namespace Demands

variable {type type' : Content → Prop} {role : Role} {name : String}

/-- What is demanded of a record is among the names that are required anywhere. -/
theorem mem_requiredNames (h : Demands type role name) : name ∈ requiredNames := by
  cases h with
  | always h => exact role.mem_requiredNames h
  | ofType _ _ h => exact KindTag.mem_requiredNames h

/-- What is demanded depends on the types that there may be only where they are types. -/
theorem mono (h : Demands type role name)
    (htype : ∀ c tag, type c → Kind.readTag c = .ok tag → type' c) : Demands type' role name := by
  cases h with
  | always h => exact .always h
  | ofType hc htag h => exact .ofType (htype _ _ hc htag) htag h

end Demands

/-- The keys of content that lead to a field: its name, or a number, that may be that of any
field. -/
def Content.Leads (key : Content) (name : String) : Prop :=
  key = .text name ∨ ∃ n, key = .integer n

/-- The keys of entries that lead to a field. -/
def Decoding.Key.Leads (key : Key) (name : String) : Prop := key = .name name ∨ ∃ n, key = .index n

end WorkflowEngine
