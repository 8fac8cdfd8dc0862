import WorkflowEngine.Decoding.Source
import WorkflowEngine.Error
import WorkflowEngine.Json.Syntax

/-!
# JSON texts and taken-over content as sources

A part of a JSON text is seen with the depth to which lists and objects may still nest in it; what
is passed over may nest deeper. Content that was taken over whole is a source like any other.
-/

namespace WorkflowEngine.Decoding

/-! ## JSON texts -/

/-- A part of a JSON text. -/
structure JsonPart where
  /-- How deep lists and objects may still nest. -/
  depth : Nat
  /-- The part as written. -/
  tree : Json.Syntax

namespace JsonPart

/-- A part as it is named in a message. -/
def describe (p : JsonPart) : String :=
  match p.tree with
  | .null => "null"
  | .boolean b => s!"boolean \x60{b}\x60"
  | .number _ => "number"
  | .string s => describeText (s.getD "")
  | .array _ => "sequence"
  | .object _ => "map"

/-- The fault of a part of another kind than expected. -/
def unexpected {α : Type} (p : JsonPart) (expected : String) : Except Failure α :=
  fault (.invalidType p.describe expected)

/-- The fault of lists and objects that nest too deep. -/
def tooDeep : Fault := .unreadable "recursion limit exceeded"

/-- A text, unless surrogate halves in it do not pair. -/
def asText : Option String → Except Failure String
  | some s => .ok s
  | none => fault (.unreadable "lone surrogate in a text")

/-- A number, unless it lies beyond the finite range. -/
def asNumber : Option Json.Number → Except Failure Json.Number
  | some n => .ok n
  | none => fault (.unreadable "number out of range")

/-- The items of a list. -/
def asItems (p : JsonPart) (items : List Json.Syntax) : Except Failure (List JsonPart) :=
  match p.depth with
  | 0 => fault tooDeep
  | depth + 1 => .ok (items.map fun v => ⟨depth, v⟩)

/-- The members of an object. -/
def asEntries (p : JsonPart) (members : List (Option String × Json.Syntax)) :
    Except Failure (Entries JsonPart) :=
  match p.depth with
  | 0 => fault tooDeep
  | depth + 1 => .ok (members.map fun m => (Key.name <$> asText m.1, ⟨depth, m.2⟩))

/-- The number as content. -/
def numberContent : Json.Number → Content
  | .integer n => .integer n
  | .fraction negative m => .floating (.finite negative m)

mutual

/-- A part taken over, nesting at most `depth` deep. -/
def toContent (depth : Nat) : Json.Syntax → Except Failure Content
  | .null => .ok .null
  | .boolean b => .ok (.boolean b)
  | .number n => numberContent <$> asNumber n
  | .string s => Content.text <$> asText s
  | .array items =>
    match depth with
    | 0 => fault tooDeep
    | depth + 1 => Content.list <$> toContents depth items
  | .object members =>
    match depth with
    | 0 => fault tooDeep
    | depth + 1 => Content.map <$> toContentEntries depth members

/-- Items taken over. -/
def toContents (depth : Nat) : List Json.Syntax → Except Failure (List Content)
  | [] => .ok []
  | v :: rest => do
    let v ← toContent depth v
    let rest ← toContents depth rest
    return v :: rest

/-- Members taken over. -/
def toContentEntries (depth : Nat) :
    List (Option String × Json.Syntax) → Except Failure (List (Content × Content))
  | [] => .ok []
  | (name, v) :: rest => do
    let name ← asText name
    let v ← toContent depth v
    let rest ← toContentEntries depth rest
    return (.text name, v) :: rest

end

instance : Source JsonPart where
  text p := match p.tree with
    | .string s => asText s
    | _ => p.unexpected "a string"
  boolean p := match p.tree with
    | .boolean b => .ok b
    | _ => p.unexpected "a boolean"
  natural p := match p.tree with
    | .number (some (.integer n)) => if 0 ≤ n then .ok n.toNat else p.unexpected "a natural number"
    | _ => p.unexpected "a natural number"
  single p := match p.tree with
    | .number n => (Json.Number.toFloating Number.single) <$> asNumber n
    | _ => p.unexpected "a number"
  items p := match p.tree with
    | .array items => p.asItems items
    | _ => p.unexpected "a sequence"
  entries p := match p.tree with
    | .object members => p.asEntries members
    | _ => p.unexpected "a map"
  layout p := match p.tree with
    | .array items => Layout.list <$> p.asItems items
    | .object members => Layout.named <$> p.asEntries members
    | _ => p.unexpected "a record"
  variant p := match p.tree with
    | .string s => do return (.name (← asText s), .ok ())
    | .object [(name, v)] =>
      if p.depth = 0 then fault tooDeep
      else do
        let nothing := match v with
          | .null => .ok ()
          | v => unexpected ⟨p.depth - 1, v⟩ "nothing"
        return (.name (← asText name), nothing)
    | _ => p.unexpected "a word"
  optional p := match p.tree with
    | .null => none
    | _ => some p
  content p := toContent p.depth p.tree
  json p := match p.tree.toJson? p.depth with
    | some v => .ok v
    | none => fault (.unreadable "a value out of range")
  skip _ := .ok ()
  exact := true
  locate _ f := f

end JsonPart

/-- Decodes a JSON text. -/
def readJsonText {α : Type} (read : JsonPart → Except Failure α) (text : String) : Except Error α :=
  match Json.Syntax.ofText? text with
  | none => .error (.json "the text is not well formed")
  | some tree =>
    match read ⟨Json.depthLimit, tree⟩ with
    | .ok a => .ok a
    | .error f => .error (.json f.message)

/-! ## Content -/

namespace ContentPart

/-- The fault of content of another kind than expected. -/
def unexpected {α : Type} (c : Content) (expected : String) : Except Failure α :=
  fault (.invalidType (describe c) expected)

/-- A key of a map: a text, or a natural number that counts fields. -/
def key (c : Content) : Except Failure Key :=
  match c with
  | .text s => .ok (.name s)
  | .integer n => if 0 ≤ n then .ok (.index n.toNat) else unexpected c "a field"
  | c => unexpected c "a field"

/-- The entries of a map. -/
def asEntries (entries : List (Content × Content)) : Entries Content :=
  entries.map fun e => (key e.1, e.2)

/-- Whether nothing hangs on a word. -/
def nothing (c : Content) : Except Failure Unit :=
  match c with
  | .null | .map [] => .ok ()
  | c => unexpected c "nothing"

instance : Source Content where
  text c := match c with
    | .text s => .ok s
    | c => unexpected c "a string"
  boolean c := match c with
    | .boolean b => .ok b
    | c => unexpected c "a boolean"
  natural c := match c with
    | .integer n => if 0 ≤ n then .ok n.toNat else unexpected c "a natural number"
    | c => unexpected c "a natural number"
  single c := match c with
    | .integer n => .ok (.ofInt Number.single n)
    | .floating x => .ok (x.convert Number.single)
    | c => unexpected c "a number"
  items c := match c with
    | .list items => .ok items
    | c => unexpected c "a sequence"
  entries c := match c with
    | .map entries => .ok (asEntries entries)
    | c => unexpected c "a map"
  layout c := match c with
    | .list items => .ok (.list items)
    | .map entries => .ok (.named (asEntries entries))
    | c => unexpected c "a record"
  variant c := match c with
    | .text s => .ok (.name s, .ok ())
    | .map [(k, v)] => do return (← key k, nothing v)
    | c => unexpected c "a word"
  optional c := match c with
    | .null => none
    | c => some c
  content c := .ok c
  json c := match c.toJson with
    | .ok v => .ok v
    | .error k => unexpected k "a string key"
  skip _ := .ok ()
  exact := true
  locate _ f := f

end ContentPart

end WorkflowEngine.Decoding
