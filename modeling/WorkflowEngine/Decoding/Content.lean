import WorkflowEngine.Json.Basic

/-!
# Content of documents

What a part of a document holds, whatever the document's language: the common form into which parts
are taken whose meaning depends on something that may stand after them.
-/

namespace WorkflowEngine

/-- What a part of a document holds. -/
inductive Content where
  /-- Nothing. -/
  | null
  /-- A truth value. -/
  | boolean (value : Bool)
  /-- An integer between -2 ^ 63 and 2 ^ 64 - 1. -/
  | integer (value : Int)
  /-- Any other number. -/
  | floating (value : Number.Floating)
  /-- A text. -/
  | text (value : String)
  /-- A list. -/
  | list (items : List Content)
  /-- Entries in their order, repetitions included. -/
  | map (entries : List (Content × Content))
  deriving Inhabited

namespace Content

mutual

/-- How deep lists and maps nest. -/
def depth : Content → Nat
  | .list items => depthItems items + 1
  | .map entries => depthEntries entries + 1
  | _ => 0

/-- How deep the items of a list nest. -/
def depthItems : List Content → Nat
  | [] => 0
  | c :: rest => max (depth c) (depthItems rest)

/-- How deep the keys and values of a map nest. -/
def depthEntries : List (Content × Content) → Nat
  | [] => 0
  | (k, v) :: rest => max (max (depth k) (depth v)) (depthEntries rest)

end

/-- The text that a content is. -/
def text? : Content → Option String
  | .text s => some s
  | _ => none

/-- A floating point number as a JSON value; what is no finite number is nothing. -/
def floatingJson : Number.Floating → Json
  | .finite negative m => .number (.fraction negative m)
  | _ => .null

mutual

/-- The JSON value of a content; the first key that is no text is the failure. -/
def toJson : Content → Except Content Json
  | .null => .ok .null
  | .boolean b => .ok (.boolean b)
  | .integer n => .ok (.number (.integer n))
  | .floating x => .ok (floatingJson x)
  | .text s => .ok (.string s)
  | .list items =>
    match toJsonItems items with
    | .ok items => .ok (.array items)
    | .error e => .error e
  | .map entries =>
    match toJsonEntries entries with
    | .ok members => .ok (Json.ofMembers members)
    | .error e => .error e

/-- The JSON values of items. -/
def toJsonItems : List Content → Except Content (List Json)
  | [] => .ok []
  | c :: rest =>
    match toJson c with
    | .error e => .error e
    | .ok v =>
      match toJsonItems rest with
      | .ok rest => .ok (v :: rest)
      | .error e => .error e

/-- The members of an object. -/
def toJsonEntries : List (Content × Content) → Except Content (List (String × Json))
  | [] => .ok []
  | (.text name, c) :: rest =>
    match toJson c with
    | .error e => .error e
    | .ok v =>
      match toJsonEntries rest with
      | .ok rest => .ok ((name, v) :: rest)
      | .error e => .error e
  | (key, _) :: _ => .error key

end

end Content

end WorkflowEngine
