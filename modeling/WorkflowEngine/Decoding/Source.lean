import WorkflowEngine.Decoding.Fault

/-!
# Sources of decoding

A source is a part of a document in some language. Each language says how its parts are seen as
texts, lists, records and so on; the decoders of the library are written once, over every source.

A record is decoded field by field in the order of the document, so that of two faults the earlier
one counts; fields that are absent are found last.
-/

namespace WorkflowEngine.Decoding

/-- The name of a field: a text, or the number of the field in its record. -/
inductive Key where
  /-- By name. -/
  | name (text : String)
  /-- By number. -/
  | index (number : Nat)
  deriving DecidableEq, Repr, Inhabited

/-- Entries of a map; a key may turn out not to be one. -/
abbrev Entries (σ : Type) := List (Except Failure Key × σ)

/-- How a record is laid out. -/
inductive Layout (σ : Type) where
  /-- Its fields in their order. -/
  | list (items : List σ)
  /-- Its fields by name. -/
  | named (entries : Entries σ)

/-- A language of documents, given by how its parts `σ` are seen. -/
class Source (σ : Type) where
  /-- A part that is a text. -/
  text : σ → Except Failure String
  /-- A part that is a truth value. -/
  boolean : σ → Except Failure Bool
  /-- A part that is a natural number below 2 ^ 64. -/
  natural : σ → Except Failure Nat
  /-- A part that is a number, rounded to 32 bits. -/
  single : σ → Except Failure Number.Floating
  /-- A part that is a list. -/
  items : σ → Except Failure (List σ)
  /-- A part that is a map. -/
  entries : σ → Except Failure (Entries σ)
  /-- A part that is a record. -/
  layout : σ → Except Failure (Layout σ)
  /-- A part that is a word, and whether nothing hangs on it. -/
  variant : σ → Except Failure (Key × Except Failure Unit)
  /-- A part that may be nothing. -/
  optional : σ → Option σ
  /-- A part taken over whole. -/
  content : σ → Except Failure Content
  /-- A part as a JSON value. -/
  json : σ → Except Failure Json
  /-- A part passed over. -/
  skip : σ → Except Failure Unit
  /-- Whether a record laid out as a list may have no more items than fields. -/
  exact : Bool
  /-- Names the place of a failure. -/
  locate : σ → Failure → Failure

variable {σ ρ α : Type} [Source σ]

/-- Fails with a fault. -/
def fault (f : Fault) : Except Failure α := .error (.ofFault f)

/-- A decoder whose failures are at the place of its source. -/
def located (s : σ) (r : Except Failure α) : Except Failure α := r.mapError (Source.locate s)

/-! ## Words -/

/-- A word with what it stands for. -/
structure Word (α : Type) where
  /-- The ways to write the word. -/
  names : List String
  /-- What it stands for. -/
  meaning : α

/-- What a word stands for; a word may also be given by its number in the list. -/
def findWord (words : List (Word α)) : Key → Except Failure α
  | .name s =>
    match words.find? fun w => w.names.contains s with
    | some w => .ok w.meaning
    | none => fault (.unknownVariant s (words.flatMap Word.names))
  | .index n =>
    match words[n]? with
    | some w => .ok w.meaning
    | none => fault (.invalidValue s!"integer \x60{n}\x60" "the number of a variant")

/-- Decodes a word on which nothing hangs. -/
def readWord (words : List (Word α)) (s : σ) : Except Failure α :=
  located s do
    let (key, rest) ← Source.variant s
    let a ← findWord words key
    rest
    return a

/-! ## Records -/

/-- A field of a record `ρ`. -/
structure Field (σ ρ : Type) where
  /-- Name of the field. -/
  name : String
  /-- Whether the field has to be there. -/
  required : Bool
  /-- Decodes the field into the record. -/
  read : σ → ρ → Except Failure ρ

/-- The field of a key. -/
def findField (fields : List (Field σ ρ)) : Key → Option (Field σ ρ)
  | .name s => fields.find? fun f => f.name == s
  | .index n => fields[n]?

/-- The fault of a key that is not known. -/
def unknownKey (fields : List (Field σ ρ)) : Key → Fault
  | .name s => .unknownField s (fields.map Field.name)
  | .index n => .invalidValue s!"integer \x60{n}\x60" "the number of a field"

/-- Decodes fields by name, given the names that stand before. -/
def readNamed (fields : List (Field σ ρ)) (strict : Bool) (seen : List String) (r : ρ) :
    Entries σ → Except Failure (List String × ρ)
  | [] => .ok (seen, r)
  | (key, value) :: rest => do
    let key ← key
    match findField fields key with
    | some f =>
      if f.name ∈ seen then fault (.duplicateField f.name)
      let r ← f.read value r
      readNamed fields strict (f.name :: seen) r rest
    | none =>
      if strict then fault (unknownKey fields key)
      Source.skip value
      readNamed fields strict seen r rest

/-- Decodes fields in their order, from the field at a place on. -/
def readListed (place : Nat) (r : ρ) : List (Field σ ρ) → List σ → Except Failure ρ
  | [], [] => .ok r
  | [], _ :: _ => if Source.exact σ then fault (.invalidLength (place + 1)) else .ok r
  | f :: fields, [] =>
    if f.required then fault (.invalidLength place) else readListed (place + 1) r fields []
  | f :: fields, value :: rest => do
    let r ← f.read value r
    readListed (place + 1) r fields rest

/-- The first required field that is absent. -/
def checkRequired (fields : List (Field σ ρ)) (seen : List String) : Except Failure Unit :=
  match fields.find? fun f => f.required && f.name ∉ seen with
  | some f => fault (.missingField f.name)
  | none => .ok ()

/-- Decodes a record laid out by name. -/
def readEntries (fields : List (Field σ ρ)) (strict : Bool) (start : ρ) (entries : Entries σ) :
    Except Failure ρ := do
  let (seen, r) ← readNamed fields strict [] start entries
  checkRequired fields seen
  return r

/-- Decodes a record: absent fields keep what `start` holds; a strict record has no others. -/
def readRecord (fields : List (Field σ ρ)) (strict : Bool) (start : ρ) (s : σ) :
    Except Failure ρ :=
  located s do
    match ← Source.layout s with
    | .list items => readListed 0 start fields items
    | .named entries => readEntries fields strict start entries

/-! ## Lists and maps -/

/-- Decodes a list. -/
def readList (read : σ → Except Failure α) (s : σ) : Except Failure (List α) :=
  located s do (← Source.items s).mapM read

/-- Decodes the entries of a map from texts to texts. -/
def readTextEntries : Entries σ → Except Failure (List (String × String))
  | [] => .ok []
  | (key, value) :: rest => do
    match ← key with
    | .name name =>
      let value ← Source.text value
      let rest ← readTextEntries rest
      return (name, value) :: rest
    | .index n => fault (.invalidType s!"integer \x60{n}\x60" "a string")

/-- Decodes a map from texts to texts; of entries of one name the last counts. -/
def readTextMap (s : σ) : Except Failure (Dictionary String) :=
  located s do return .ofList (← readTextEntries (← Source.entries s))

end WorkflowEngine.Decoding
