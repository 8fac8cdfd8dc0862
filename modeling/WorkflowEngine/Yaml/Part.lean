import WorkflowEngine.Decoding.Sources
import WorkflowEngine.Yaml.Resolution

/-!
# YAML documents as sources

Decoding sees a document with its references followed. Lists and maps may nest only so deep, and
references may be followed only so often, so that a small text cannot stand for an endless document;
what lies beyond is a failure only if it is used.
-/

namespace WorkflowEngine.Yaml

open Decoding

/-- A node with its references followed. -/
inductive Tree where
  /-- A scalar. -/
  | scalar (tag : Option String) (style : ScalarStyle) (text : String)
  /-- A list. -/
  | sequence (tag : Option String) (items : List Tree)
  /-- A map. -/
  | mapping (tag : Option String) (entries : List (Tree × Tree))
  /-- The text cannot be read beyond this point. -/
  | broken (flaw : Flaw)
  /-- This may not be used. -/
  | exceeded (flaw : Flaw)
  deriving Inhabited

/-- The tree of nothing. -/
def Tree.empty : Tree := .scalar none .plain ""

/-! ## Following references -/

namespace Node

mutual

/-- How many events a node consists of: two for a collection, one for everything else. -/
def events : Node → Nat
  | .sequence _ items => eventsOfItems items + 2
  | .mapping _ entries => eventsOfEntries entries + 2
  | .broken _ => 0
  | _ => 1

/-- How many events items consist of. -/
def eventsOfItems : List Node → Nat
  | [] => 0
  | n :: rest => events n + eventsOfItems rest

/-- How many events entries consist of. -/
def eventsOfEntries : List (Node × Node) → Nat
  | [] => 0
  | (k, v) :: rest => events k + events v + eventsOfEntries rest

end

/-- Adds a node to those with anchors if it has one. -/
def noteAnchored (p : Properties) (n : Node) (found : List (Nat × Node)) : List (Nat × Node) :=
  match p.anchored with
  | some place => (place, n) :: found
  | none => found

mutual

/-- The nodes with anchors, by their places. -/
def anchored (found : List (Nat × Node)) : Node → List (Nat × Node)
  | .scalar p style text => noteAnchored p (.scalar p style text) found
  | .sequence p items => anchoredItems (noteAnchored p (.sequence p items) found) items
  | .mapping p entries => anchoredEntries (noteAnchored p (.mapping p entries) found) entries
  | _ => found

/-- The nodes with anchors among items. -/
def anchoredItems (found : List (Nat × Node)) : List Node → List (Nat × Node)
  | [] => found
  | n :: rest => anchoredItems (anchored found n) rest

/-- The nodes with anchors among entries. -/
def anchoredEntries (found : List (Nat × Node)) : List (Node × Node) → List (Nat × Node)
  | [] => found
  | (k, v) :: rest => anchoredEntries (anchored (anchored found k) v) rest

end

end Node

/-- What is known while references are followed. -/
structure Expansion where
  /-- The node that a number of an anchor stands for. -/
  target? : Nat → Option Node
  /-- How often references may be followed. -/
  limit : Nat

namespace Expansion

/-- Follows a reference, counting it. -/
def follow (x : Expansion) (used : Nat) (n : Node) : Except Flaw (Node × Nat) :=
  match n with
  | .reference anchor =>
    if x.limit ≤ used then .error .repetitionLimit
    else match x.target? anchor with
      | some target => .ok (target, used + 1)
      | none => .error .unknownAnchor
  | n => .ok (n, used)

/-- Applies a step to items in turn, counting references. -/
def each {α β : Type} (step : Nat → α → β × Nat) (used : Nat) : List α → List β × Nat
  | [] => ([], used)
  | a :: rest =>
    let (b, used) := step used a
    let (rest, used) := each step used rest
    (b :: rest, used)

/-- A node with its references followed, where lists and maps nest at most `depth` deep. -/
def expand (x : Expansion) : (depth : Nat) → Nat → Node → Tree × Nat
  | depth, used, n =>
    match x.follow used n with
    | .error flaw => (.exceeded flaw, used)
    | .ok (n, used) =>
      match n with
      | .scalar p style text => (.scalar p.tag style text, used)
      | .broken flaw => (.broken flaw, used)
      | .reference _ => (.exceeded .unknownAnchor, used)
      | .sequence p items =>
        match depth with
        | 0 => (.exceeded .recursionLimit, used)
        | depth + 1 =>
          let (items, used) := each (expand x depth) used items
          (.sequence p.tag items, used)
      | .mapping p entries =>
        match depth with
        | 0 => (.exceeded .recursionLimit, used)
        | depth + 1 =>
          let pair (used : Nat) (e : Node × Node) : (Tree × Tree) × Nat :=
            let (k, used) := expand x depth used e.1
            let (v, used) := expand x depth used e.2
            ((k, v), used)
          let (entries, used) := each pair used entries
          (.mapping p.tag entries, used)

end Expansion

/-- Lists and maps may nest at most this deep. -/
def depthLimit : Nat := 128

/-- For every event of a document references may be followed this often. -/
def repetitionLimit : Nat := 100

/-- The tree of a document. -/
def Document.tree (d : Document) : Tree :=
  match d.root with
  | none => .empty
  | some root =>
    let nodes := root.anchored []
    let target? (anchor : Nat) : Option Node :=
      (d.places.lookup anchor).bind fun place => nodes.lookup place
    (Expansion.expand ⟨target?, repetitionLimit * root.events⟩ depthLimit 0 root).1

/-! ## Parts of documents -/

/-- A part of a document and where it stands. -/
structure Part where
  /-- The keys and numbers that lead to it. -/
  place : String
  /-- The part. -/
  tree : Tree

namespace Part

/-- The place of a value in a map. -/
def underKey (place : String) (key : Tree) : String :=
  let before := if place = "." then "" else place ++ "."
  match key with
  | .scalar _ _ text => before ++ text
  | _ => before ++ "?"

/-- The place of an item in a list. -/
def underIndex (place : String) (i : Nat) : String := s!"{place}[{i}]"

/-- A part as it is named in a message. -/
def describe (p : Part) : String :=
  match p.tree with
  | .scalar tag style text =>
    match scalarContent tag style text with
    | .ok c => Decoding.describe c
    | .error _ => describeText text
  | .sequence _ _ => "sequence"
  | .mapping _ _ => "map"
  | .broken _ | .exceeded _ => "nothing"

/-- The failure of a part of another kind than expected. -/
def unexpected {α : Type} (p : Part) (expected : String) : Except Failure α :=
  match p.tree with
  | .broken flaw | .exceeded flaw => fault (.unreadable flaw.text)
  | _ => .error ⟨some p.place, .invalidType p.describe expected⟩

/-- Whether a tree is an empty plain scalar, which counts as an empty list or map. -/
def isVoid (t : Tree) : Bool :=
  match t with
  | .scalar _ style text => style == .plain && text.isEmpty
  | _ => false

/-- The items of a list. -/
def asItems (place : String) (items : List Tree) : List Part :=
  items.zipIdx.map fun e => ⟨underIndex place e.2, e.1⟩

/-- The key of an entry. -/
def asKey (place : String) (key : Tree) : Except Failure Key :=
  match key with
  | .scalar _ _ text => .ok (.name text)
  | key => unexpected ⟨place, key⟩ "a field"

/-- The entries of a map. -/
def asEntries (place : String) (entries : List (Tree × Tree)) : Entries Part :=
  entries.map fun e => (asKey place e.1, ⟨underKey place e.1, e.2⟩)

/-- The part as a map, of which an empty plain scalar is one. -/
def entriesOf (p : Part) (expected : String) : Except Failure (Entries Part) :=
  match p.tree with
  | .mapping _ entries => .ok (asEntries p.place entries)
  | t => if isVoid t then .ok [] else p.unexpected expected

/-- The failure of a tag that names a variant. -/
def variantTag {α : Type} (place : String) : Except Failure α :=
  .error ⟨some place, .invalidType "enum" "a value without a tag"⟩

mutual

/-- A part taken over. -/
def toContent (place : String) : Tree → Except Failure Content
  | .scalar tag style text => (scalarContent tag style text).mapError (Failure.placedAt place)
  | .sequence tag items =>
    if (variantOfTag tag).isSome then variantTag place
    else Content.list <$> toContents place 0 items
  | .mapping tag entries =>
    if (variantOfTag tag).isSome then variantTag place
    else Content.map <$> toContentEntries place entries
  | .broken flaw => fault (.unreadable flaw.text)
  | .exceeded flaw => fault (.unreadable flaw.text)

/-- Items taken over, from the item of a number on. -/
def toContents (place : String) (i : Nat) : List Tree → Except Failure (List Content)
  | [] => .ok []
  | t :: rest => do
    let c ← toContent (underIndex place i) t
    let rest ← toContents place (i + 1) rest
    return c :: rest

/-- Entries taken over. -/
def toContentEntries (place : String) :
    List (Tree × Tree) → Except Failure (List (Content × Content))
  | [] => .ok []
  | (k, v) :: rest => do
    let key ← toContent place k
    let value ← toContent (underKey place k) v
    let rest ← toContentEntries place rest
    return (key, value) :: rest

end

mutual

/-- Passes over a tree, of which every part has to be readable. -/
def passOver : Tree → Except Failure Unit
  | .broken flaw => fault (.unreadable flaw.text)
  | .sequence _ items => passOverItems items
  | .mapping _ entries => passOverEntries entries
  | _ => .ok ()

/-- Passes over items. -/
def passOverItems : List Tree → Except Failure Unit
  | [] => .ok ()
  | t :: rest => do
    passOver t
    passOverItems rest

/-- Passes over entries. -/
def passOverEntries : List (Tree × Tree) → Except Failure Unit
  | [] => .ok ()
  | (k, v) :: rest => do
    passOver k
    passOver v
    passOverEntries rest

end

/-- Whether nothing hangs on a word that a tag gives. -/
def nothing (p : Part) : Except Failure Unit :=
  match p.tree with
  | .scalar _ .plain text => if isNull text then .ok () else p.unexpected "nothing"
  | _ => p.unexpected "nothing"

/-- A part as a word. -/
def word (p : Part) : Except Failure (Key × Except Failure Unit) :=
  match p.tree with
  | .scalar tag _ text =>
    match variantOfTag tag with
    | some name => .ok (.name name, p.nothing)
    | none => .ok (.name text, .ok ())
  | .sequence tag _ | .mapping tag _ =>
    match variantOfTag tag with
    | some name => .ok (.name name, p.nothing)
    | none => p.unexpected "a word"
  | _ => p.unexpected "a word"

instance : Source Part where
  text p := match p.tree with
    | .scalar _ _ text => .ok text
    | _ => p.unexpected "a string"
  boolean p := match p.tree with
    | .scalar tag style text =>
      match truth? text with
      | some b =>
        if style = .plain ∨ (style = .literal ∧ tag = some (standardTag "bool")) then .ok b
        else p.unexpected "a boolean"
      | none => p.unexpected "a boolean"
    | _ => p.unexpected "a boolean"
  natural p := do Source.natural (← toContent p.place p.tree)
  single p := do Source.single (← toContent p.place p.tree)
  items p := match p.tree with
    | .sequence _ items => .ok (asItems p.place items)
    | t => if isVoid t then .ok [] else p.unexpected "a sequence"
  entries p := p.entriesOf "a map"
  layout p := Layout.named <$> p.entriesOf "a record"
  variant p := p.word
  optional p := match p.tree with
    | .scalar none .plain text => if isNull text then none else some p
    | _ => some p
  content p := toContent p.place p.tree
  json p := do Source.json (← toContent p.place p.tree)
  skip p := passOver p.tree
  exact := true
  locate p f := f.placedAt p.place

end Part

/-- Decodes the one document of a text. -/
def readText {α : Type} (read : Part → Except Failure α) (text : String) : Except Failure α := do
  let d := Document.ofText text
  let a ← read ⟨".", d.tree⟩
  match d.tail with
  | some flaw => fault (.unreadable flaw.text)
  | none => return a

end WorkflowEngine.Yaml
