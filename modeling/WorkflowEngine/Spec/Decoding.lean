import WorkflowEngine.Decoding.Sources
import WorkflowEngine.Spec.Builder
import WorkflowEngine.Spec.Encoding

/-!
# Reading specifications

Specifications and their parts are decoded from any source. What a module's type asks for may stand
before the type is known; so apart from its name and signature the fields of a module are taken over
whole, and decoded once the type has been found among them. Steps and cases have no other fields
than the known ones, so that a misspelled field is a fault; everywhere else unknown fields are
passed over.
-/

namespace WorkflowEngine

open Decoding

variable {σ : Type} [Source σ]

/-! ## Values and signatures -/

/-- The words for types. -/
def ValueType.words : List (Word ValueType) :=
  [⟨["string"], .string⟩, ⟨["integer", "int"], .integer⟩, ⟨["boolean"], .boolean⟩,
    ⟨["object"], .object⟩, ⟨["list"], .list⟩, ⟨["any"], .any⟩]

/-- The words for classes of modules. -/
def ModuleType.words : List (Word ModuleType) := ModuleType.all.map fun t => ⟨[t.name], t⟩

/-- The words for kinds of modules. -/
def KindTag.words : List (Word KindTag) := KindTag.all.map fun t => ⟨[t.name], t⟩

/-- The fields of a declaration. -/
def ValueSpec.fields : List (Field σ ValueSpec) :=
  [⟨"name", true, fun v r => return { r with name := ← Source.text v }⟩,
    ⟨"type", false, fun v r => return { r with type := ← readWord ValueType.words v }⟩,
    ⟨"optional", false, fun v r => return { r with optional := ← Source.boolean v }⟩]

/-- Decodes a declaration, of any type and not optional unless it says so. -/
def ValueSpec.read (s : σ) : Except Failure ValueSpec :=
  readRecord ValueSpec.fields false ⟨"", .any, false⟩ s

/-- Decodes a payload. -/
def Payload.read (s : σ) : Except Failure Payload := Payload.ofJson <$> Source.json s

/-- Decodes a value. -/
def Value.read (s : σ) : Except Failure Value :=
  readRecord
    [⟨"spec", true, fun v r => return { r with spec := ← ValueSpec.read v }⟩,
      ⟨"payload", true, fun v r => return { r with payload := ← Payload.read v }⟩]
    false ⟨⟨"", .any, false⟩, .null⟩ s

/-- The fields of a signature. -/
def Signature.fields : List (Field σ Signature) :=
  [⟨"input", false, fun v r => return { r with input := ← readList ValueSpec.read v }⟩,
    ⟨"output", false, fun v r => return { r with output := ← readList ValueSpec.read v }⟩,
    ⟨"dependencies", false, fun v r =>
      return { r with dependencies := .ofList (← readList Source.text v) }⟩]

/-- Decodes a signature, declaring nothing unless it says so. -/
def Signature.read (s : σ) : Except Failure Signature := readRecord Signature.fields false .empty s

/-! ## Kinds -/

/-- Decodes a step, given how its child is decoded. -/
def Step.readWith (child : σ → Except Failure ModuleSpec) (s : σ) :
    Except Failure (Step ModuleSpec) :=
  readRecord
    [⟨"module", true, fun v r => return { r with child := ← child v }⟩,
      ⟨"mapping", false, fun v r => return { r with mapping := ← readTextMap v }⟩]
    true ⟨default, .empty⟩ s

/-- Decodes a case, given how its child is decoded. -/
def Case.readWith (child : σ → Except Failure ModuleSpec) (s : σ) :
    Except Failure (Case ModuleSpec) :=
  readRecord
    [⟨"value", true, fun v r => return { r with key := ← Payload.read v }⟩,
      ⟨"module", true, fun v r => return { r with child := ← child v }⟩]
    true ⟨.null, default⟩ s

namespace Kind

/-- Decodes the only field of a kind that has one and needs it. -/
def readField {α : Type} (name : String) (start : α) (read : Content → Except Failure α)
    (rest : Content) : Except Failure α :=
  readRecord [⟨name, true, fun v _ => read v⟩] false start rest

/-- Decodes the only field of a kind that has one and can do without. -/
def readOptionalField {α : Type} (name : String) (start : α) (read : Content → Except Failure α)
    (rest : Content) : Except Failure α :=
  readRecord [⟨name, false, fun v _ => read v⟩] false start rest

/-- Decodes the fields of a kind that has none: a list of them must be empty, named ones are passed
over. -/
def readNoField {α : Type} (start : α) : (rest : Content) → Except Failure α
  | .list (_ :: items) => fault (.invalidLength (items.length + 1))
  | _ => .ok start

/-- The fields of a switch, given how its children are decoded. -/
def switchFields (child : Content → Except Failure ModuleSpec) :
    List (Field Content SwitchParts) :=
  [⟨"condition", true, fun v r => return { r with condition := ← Source.text v }⟩,
    ⟨"cases", false, fun v r => return { r with cases := ← readList (Case.readWith child) v }⟩,
    ⟨"default", false, fun v r =>
      return { r with fallback := ← (Source.optional v).mapM child }⟩]

/-- Decodes the fields of a kind, given how its children are decoded. -/
def readFields (child : Content → Except Failure ModuleSpec) (tag : KindTag) (rest : Content) :
    Except Failure (Kind ModuleId ModuleSpec) :=
  match tag with
  | .sequential =>
    .sequential <$> readOptionalField "steps" [] (readList (Step.readWith child)) rest
  | .parallel => .parallel <$> readOptionalField "branches" [] (readList child) rest
  | .switch => do
    let parts ← readRecord (switchFields child) false ⟨"", [], none⟩ rest
    return .switch parts.condition parts.cases parts.fallback
  | .subWorkflow => .subWorkflow <$> readField "target" "" Source.text rest
  | .llm => .llm <$> readField "template" "" Source.text rest
  | .tool => .tool <$> readField "tool" "" Source.text rest
  | .http => readNoField .http rest
  | .jsonExtract => .jsonExtract <$> readField "field" "" Source.text rest

/-- The kind that a taken-over word stands for; it may be given by its number. -/
def readTag (c : Content) : Except Failure KindTag :=
  match c with
  | .text s => findWord KindTag.words (.name s)
  | .integer n =>
    if 0 ≤ n then findWord KindTag.words (.index n.toNat) else ContentPart.unexpected c "a type"
  | c => ContentPart.unexpected c "a type"

/-- Takes the type out of the fields of a module. -/
def takeTag (tag : Option KindTag) (rest : List (Content × Content)) :
    List (Content × Content) → Except Failure (KindTag × List (Content × Content))
  | [] =>
    match tag with
    | some tag => .ok (tag, rest.reverse)
    | none => fault (.missingField "type")
  | (.text "type", c) :: more => do
    if tag.isSome then fault (.duplicateField "type")
    takeTag (some (← readTag c)) rest more
  | entry :: more => takeTag tag (entry :: rest) more

end Kind

/-! ## Modules -/

namespace ModuleSpec

/-- The fields of a module before its type is known. -/
structure Parts where
  /-- The name, once found. -/
  id : Option ModuleId
  /-- The signature, once found. -/
  signature : Option Signature
  /-- All other fields, last first. -/
  others : List (Content × Content)

/-- Gathers the fields of a module. -/
def gather (p : Parts) : Entries σ → Except Failure Parts
  | [] => .ok p
  | (key, value) :: rest => do
    match ← key with
    | .name "id" =>
      if p.id.isSome then fault (.duplicateField "id")
      let id ← Source.text value
      gather { p with id := some id } rest
    | .name "signature" =>
      if p.signature.isSome then fault (.duplicateField "signature")
      let signature ← Signature.read value
      gather { p with signature := some signature } rest
    | .name name =>
      let value ← Source.content value
      gather { p with others := (.text name, value) :: p.others } rest
    | .index n =>
      let value ← Source.content value
      gather { p with others := (.integer n, value) :: p.others } rest

/-- Decodes a module, given how the fields that depend on its kind are decoded. -/
def readWith (kind : List (Content × Content) → Except Failure (Kind ModuleId ModuleSpec)) (s : σ) :
    Except Failure ModuleSpec :=
  located s do
    let p ← gather ⟨none, none, []⟩ (← Source.entries s)
    match p.id with
    | none => fault (.missingField "id")
    | some id => return .mk id (p.signature.getD .empty) (← kind p.others.reverse)

/-- Decodes the fields of a module that depend on its kind, where modules nest at most `depth`
deep. -/
def readKindAt : (depth : Nat) → List (Content × Content) →
    Except Failure (Kind ModuleId ModuleSpec)
  | 0, _ => fault (.unreadable "modules nest too deep")
  | depth + 1, entries => do
    let (tag, rest) ← Kind.takeTag none [] entries
    Kind.readFields (readWith (readKindAt depth)) tag (.map rest)

/-- Decodes the fields of a module that depend on its kind. Modules nest no deeper than content. -/
def readKind (entries : List (Content × Content)) : Except Failure (Kind ModuleId ModuleSpec) :=
  readKindAt (Content.depthEntries entries + 1) entries

/-- Decodes a module. -/
def read (s : σ) : Except Failure ModuleSpec := readWith readKind s

end ModuleSpec

/-- Decodes a step. -/
def Step.read (s : σ) : Except Failure (Step ModuleSpec) := Step.readWith ModuleSpec.read s

/-- Decodes a case. -/
def Case.read (s : σ) : Except Failure (Case ModuleSpec) := Case.readWith ModuleSpec.read s

namespace Kind

/-- Takes the type out of entries, and the others over. -/
def gather (tag : Option KindTag) (rest : List (Content × Content)) :
    Entries σ → Except Failure (KindTag × List (Content × Content))
  | [] =>
    match tag with
    | some tag => .ok (tag, rest.reverse)
    | none => fault (.missingField "type")
  | (key, value) :: more => do
    match ← key with
    | .name "type" =>
      if tag.isSome then fault (.duplicateField "type")
      let tag ← findWord KindTag.words (.name (← Source.text value))
      gather (some tag) rest more
    | .name name => gather tag ((.text name, ← Source.content value) :: rest) more
    | .index n => gather tag ((.integer n, ← Source.content value) :: rest) more

/-- Decodes the part of a module that depends on its kind, where it stands alone: fields by name, or
the type and after it the fields in their order. -/
def read (s : σ) : Except Failure (Kind ModuleId ModuleSpec) :=
  located s do
    match ← Source.layout s with
    | .named entries =>
      let (tag, rest) ← gather none [] entries
      readFields ModuleSpec.read tag (.map rest)
    | .list [] => fault (.missingField "type")
    | .list (first :: items) =>
      let tag ← findWord KindTag.words (.name (← Source.text first))
      readFields ModuleSpec.read tag (.list (← items.mapM Source.content))

end Kind

/-! ## Documents -/

/-- Decodes the modules of a document. -/
def readDocument (s : σ) : Except Failure (List ModuleSpec) :=
  readRecord [⟨"modules", false, fun v _ => readList ModuleSpec.read v⟩] false [] s

end WorkflowEngine
