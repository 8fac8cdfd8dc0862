import WorkflowEngine.Spec

/-!
# Building composite specifications

A draft gathers the parts of a composite: its name, its declared sides, and the parts of its kind.
Finishing it records every workflow referred to inside as a dependency.
-/

namespace WorkflowEngine

/-- A composite specification in the making, with the parts `κ` of its kind. -/
structure Draft (κ : Type) where
  /-- Name of the composite. -/
  id : ModuleId
  /-- Inputs declared so far. -/
  inputs : List ValueSpec
  /-- Outputs declared so far. -/
  outputs : List ValueSpec
  /-- Parts gathered so far. -/
  parts : κ

namespace Draft

variable {κ : Type}

/-- Declares an input. -/
def input (d : Draft κ) (name : String) (type : ValueType) : Draft κ :=
  { d with inputs := d.inputs ++ [.required name type] }

/-- Declares an output. -/
def output (d : Draft κ) (name : String) (type : ValueType) : Draft κ :=
  { d with outputs := d.outputs ++ [.required name type] }

/-- The specification of a draft, given its kind. -/
def finish (d : Draft κ) (kind : Kind ModuleId ModuleSpec) : ModuleSpec :=
  let references := (ModuleSpec.mk d.id .empty kind).references
  .mk d.id ⟨d.inputs, d.outputs, references⟩ kind

end Draft

/-- A sequence in the making. -/
abbrev SequentialDraft := Draft (List (Step ModuleSpec))

namespace SequentialDraft

/-- A sequence without steps. -/
def start (id : ModuleId) : SequentialDraft := ⟨id, [], [], []⟩

/-- Appends a step that takes some inputs from values of other names. -/
def addMappedStep (d : SequentialDraft) (child : ModuleSpec) (mapping : List (String × String)) :
    SequentialDraft :=
  { d with parts := d.parts ++ [⟨child, .ofList mapping⟩] }

/-- Appends a step that takes its inputs by their names. -/
def addStep (d : SequentialDraft) (child : ModuleSpec) : SequentialDraft := d.addMappedStep child []

/-- The specification. -/
def build (d : SequentialDraft) : ModuleSpec := d.finish (.sequential d.parts)

end SequentialDraft

/-- A fan-out in the making. -/
abbrev ParallelDraft := Draft (List ModuleSpec)

namespace ParallelDraft

/-- A fan-out without branches. -/
def start (id : ModuleId) : ParallelDraft := ⟨id, [], [], []⟩

/-- Appends a branch. -/
def addBranch (d : ParallelDraft) (child : ModuleSpec) : ParallelDraft :=
  { d with parts := d.parts ++ [child] }

/-- The specification. -/
def build (d : ParallelDraft) : ModuleSpec := d.finish (.parallel d.parts)

end ParallelDraft

/-- The parts of a switch. -/
structure SwitchParts where
  /-- Variable whose value selects a case. -/
  condition : String
  /-- Cases gathered so far. -/
  cases : List (Case ModuleSpec)
  /-- What runs when no case fits. -/
  fallback : Option ModuleSpec

/-- A switch in the making. -/
abbrev SwitchDraft := Draft SwitchParts

namespace SwitchDraft

/-- A switch without cases. -/
def start (id : ModuleId) (condition : String) : SwitchDraft := ⟨id, [], [], ⟨condition, [], none⟩⟩

/-- Binds a module to a key: the case of an equal key is replaced, else a case is appended. -/
def place (key : Payload) (child : ModuleSpec) : List (Case ModuleSpec) → List (Case ModuleSpec)
  | [] => [⟨key, child⟩]
  | c :: rest => if c.key = key then ⟨c.key, child⟩ :: rest else c :: place key child rest

/-- Binds a module to a key. -/
def addCase (d : SwitchDraft) (key : Payload) (child : ModuleSpec) : SwitchDraft :=
  { d with parts := { d.parts with cases := place key child d.parts.cases } }

/-- Sets what runs when no case fits. -/
def otherwise (d : SwitchDraft) (child : ModuleSpec) : SwitchDraft :=
  { d with parts := { d.parts with fallback := some child } }

/-- The specification. The condition need not be declared: compilation adds it to the inputs. -/
def build (d : SwitchDraft) : ModuleSpec :=
  d.finish (.switch d.parts.condition d.parts.cases d.parts.fallback)

end SwitchDraft

end WorkflowEngine
