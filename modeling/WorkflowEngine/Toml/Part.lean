import WorkflowEngine.Decoding.Sources
import WorkflowEngine.Toml.Document

/-!
# Settings files as sources

How the values of a settings file are seen by decoders: a record may be a table or a list, whose
further items do not count, and a word may be a text or a table in which nothing hangs on it.
-/

namespace WorkflowEngine.Toml

open Decoding

namespace Node

/-- A value as it is named in a message. -/
def describe : Node → String
  | .text s => describeText s
  | .integer n => s!"integer \x60{n}\x60"
  | .floating _ => "floating point number"
  | .boolean b => s!"boolean \x60{b}\x60"
  | .list _ | .tables _ => "sequence"
  | .moment _ | .table _ _ => "map"

/-- The fault of a value of another kind than expected. -/
def unexpected {α : Type} (v : Node) (expected : String) : Except Failure α :=
  fault (.invalidType v.describe expected)

/-- The name under which a date or a time stands where a record is expected. -/
def momentName : String := "$moment"

/-- The tables of a list of tables as values. -/
def ofTables (items : List Members) : List Node := items.map (.table .header)

/-- The members of a table as entries. -/
def asEntries (members : Members) : Entries Node := members.map fun m => (.ok (.name m.1), m.2)

/-- Whether nothing hangs on a word. -/
def nothing (v : Node) : Except Failure Unit :=
  match v with
  | .list [] | .table _ [] => .ok ()
  | v => v.unexpected "nothing"

mutual

/-- A value taken over. -/
def toContent : Node → Content
  | .text s => .text s
  | .integer n => .integer n
  | .floating x => .floating x
  | .boolean b => .boolean b
  | .moment s => .map [(.text momentName, .text s)]
  | .list items => .list (toContents items)
  | .table _ members => .map (toContentEntries members)
  | .tables items => .list (toContentTables items)

/-- Values taken over. -/
def toContents : List Node → List Content
  | [] => []
  | v :: rest => toContent v :: toContents rest

/-- Members taken over. -/
def toContentEntries : List (String × Node) → List (Content × Content)
  | [] => []
  | (name, v) :: rest => (.text name, toContent v) :: toContentEntries rest

/-- Tables taken over. -/
def toContentTables : List (List (String × Node)) → List Content
  | [] => []
  | members :: rest => .map (toContentEntries members) :: toContentTables rest

end

instance : Source Node where
  text v := match v with
    | .text s => .ok s
    | v => v.unexpected "a string"
  boolean v := match v with
    | .boolean b => .ok b
    | v => v.unexpected "a boolean"
  natural v := match v with
    | .integer n => if 0 ≤ n then .ok n.toNat else v.unexpected "a natural number"
    | v => v.unexpected "a natural number"
  single v := match v with
    | .integer n => .ok (.ofInt Number.single n)
    | .floating x => .ok (x.convert Number.single)
    | v => v.unexpected "a number"
  items v := match v with
    | .list items => .ok items
    | .tables items => .ok (ofTables items)
    | v => v.unexpected "a sequence"
  entries v := match v with
    | .table _ members => .ok (asEntries members)
    | .moment s => .ok (asEntries [(momentName, .text s)])
    | v => v.unexpected "a map"
  layout v := match v with
    | .list items => .ok (.list items)
    | .tables items => .ok (.list (ofTables items))
    | .table _ members => .ok (.named (asEntries members))
    | .moment s => .ok (.named (asEntries [(momentName, .text s)]))
    | v => v.unexpected "a record"
  variant v := match v with
    | .text s => .ok (.name s, .ok ())
    | .table .braces [(name, rest)] => .ok (.name name, nothing rest)
    | .table .braces _ => v.unexpected "a word"
    | .table _ ((name, rest) :: _) => .ok (.name name, nothing rest)
    | v => v.unexpected "a word"
  optional v := some v
  content v := .ok v.toContent
  json v := match v.toContent.toJson with
    | .ok v => .ok v
    | .error _ => v.unexpected "a string key"
  skip _ := .ok ()
  exact := false
  locate _ f := f

end Node

/-- Decodes a settings file. -/
def decodeText {α : Type} (read : Node → Except Failure α) (text : String) : Except Failure α :=
  match Table.ofText? text with
  | some t => read t.toNode
  | none => fault (.unreadable "the text is not well formed")

end WorkflowEngine.Toml
