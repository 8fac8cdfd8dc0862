import WorkflowEngine.Number.Reading

/-!
# Tables of settings files

A settings file in TOML is a table of values by name, and values may be tables again. A table comes
into being in one of four ways, and how it came into being decides what may be added to it later: a
header opens a table once, a dotted key adds only to tables that dotted keys made, and what stands
between braces is complete.
-/

namespace WorkflowEngine.Toml

/-- How a table came into being. -/
inductive Origin where
  /-- By a header that names it. -/
  | header
  /-- On the way of a header to another table. -/
  | passage
  /-- On the way of a dotted key. -/
  | dotted
  /-- Between braces. -/
  | braces
  deriving DecidableEq, Repr, Inhabited

/-- A value. -/
inductive Node where
  /-- A text. -/
  | text (value : String)
  /-- An integer of 64 bits. -/
  | integer (value : Int)
  /-- A floating point number. -/
  | floating (value : Number.Floating)
  /-- A truth value. -/
  | boolean (value : Bool)
  /-- A date, a time, or both, as written. -/
  | moment (text : String)
  /-- A list between brackets. -/
  | list (items : List Node)
  /-- A table. -/
  | table (origin : Origin) (members : List (String × Node))
  /-- Tables that headers list one after the other, at least one. -/
  | tables (items : List (List (String × Node)))
  deriving Inhabited

/-- Values by name, in the order of their appearance. -/
abbrev Members := List (String × Node)

/-- Changes the value of a name in place; for a new name a value is made and appended. -/
def alter (name : String) (change : Option Node → Option Node) : Members → Option Members
  | [] => (change none).map fun v => [(name, v)]
  | (n, v) :: rest =>
    if n = name then (change (some v)).map fun v => (n, v) :: rest
    else (alter name change rest).map ((n, v) :: ·)

/-- A table. -/
structure Table where
  /-- How the table came into being. -/
  origin : Origin
  /-- What the table holds. -/
  members : Members

namespace Table

/-- A table as a value. -/
def toNode (t : Table) : Node := .table t.origin t.members

/-- Whether a path may lead through a table: a dotted key enters only what was never opened, and
nothing enters what stands between braces. -/
def mayEnter (dotted : Bool) : Origin → Bool
  | .header => !dotted
  | .passage | .dotted => true
  | .braces => false

/-- Changes the table that a value is, or the last of the tables that it lists; where there is
nothing yet, a table is made. -/
def enter (dotted : Bool) (change : Table → Option Table) : Option Node → Option Node
  | none => (change ⟨if dotted then .dotted else .passage, []⟩).map toNode
  | some (.table origin members) =>
    if mayEnter dotted origin then (change ⟨origin, members⟩).map toNode else none
  | some (.tables items) => do
    let last ← items.getLast?
    let t ← change ⟨.header, last⟩
    return .tables (items.dropLast ++ [t.members])
  | some _ => none

/-- Changes the table to which a path leads. -/
def changeAt (dotted : Bool) (change : Table → Option Table) : List String → Table → Option Table
  | [], t => change t
  | name :: path, t => do
    let members ← alter name (enter dotted (changeAt dotted change path)) t.members
    return { t with members := members }

/-- A value under a key, the key given as a path and the name at its end. -/
structure Pair where
  /-- Names that lead to the table. -/
  path : List String
  /-- Name in the table. -/
  name : String
  /-- The value. -/
  value : Node

/-- Adds a value under a new name. A dotted key ends in a table that dotted keys made. -/
def addPair (t : Table) (p : Pair) : Option Table :=
  changeAt true
    (fun t =>
      if (t.origin == .dotted) == p.path.isEmpty then none
      else if t.members.any fun m => m.1 == p.name then none
      else some { t with members := t.members ++ [(p.name, p.value)] })
    p.path t

/-- Adds values one after the other. -/
def addPairs (t : Table) (ps : List Pair) : Option Table := ps.foldlM addPair t

/-- What stands above the pairs of a section. -/
inductive Header where
  /-- The table of a path and a name. -/
  | table (path : List String) (name : String)
  /-- One more table in the list of a path and a name. -/
  | item (path : List String) (name : String)

/-- Opens a table under a name and fills it. A table may be opened once; what was made on the way of
other headers is kept in it. -/
def openTable (name : String) (ps : List Pair) (parent : Table) : Option Table := do
  let others := parent.members.filter fun m => m.1 != name
  let start ← match parent.members.find? fun m => m.1 == name with
    | none => some []
    | some (_, .table .passage members) => some members
    | some _ => none
  let t ← addPairs ⟨.header, start⟩ ps
  return { parent with members := others ++ [(name, t.toNode)] }

/-- Adds a table to a list under a name, and fills it. -/
def openItem (name : String) (ps : List Pair) (parent : Table) : Option Table := do
  let t ← addPairs ⟨.header, []⟩ ps
  let members ← alter name
    (fun
      | none => some (.tables [t.members])
      | some (.tables items) => some (.tables (items ++ [t.members]))
      | some _ => none)
    parent.members
  return { parent with members := members }

/-- Adds a section to the table of a file. -/
def addSection (root : Table) : Header × List Pair → Option Table
  | (.table path name, ps) => changeAt false (openTable name ps) path root
  | (.item path name, ps) => changeAt false (openItem name ps) path root

end Table

/-! ## Tables between braces -/

namespace Node

mutual

/-- A value between braces, where dotted keys made tables that are now complete as well. -/
def complete : Node → Node
  | .table .dotted members => .table .braces (completeMembers members)
  | v => v

/-- The values of complete tables. -/
def completeMembers : Members → Members
  | [] => []
  | (name, v) :: rest => (name, complete v) :: completeMembers rest

end

/-- The table between braces that holds given values. -/
def ofPairs (ps : List Table.Pair) : Option Node :=
  (Table.addPairs ⟨.braces, []⟩ ps).map fun t => .table .braces (completeMembers t.members)

end Node

end WorkflowEngine.Toml
