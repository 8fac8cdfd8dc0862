import WorkflowEngine.Toml.Quoted
import WorkflowEngine.Toml.Word

/-!
# Settings files

A settings file is a sequence of lines: pairs of a key and a value, and headers that name the table
to which the pairs after them belong. Values nest, and so do keys with points between their names;
both only to a fixed depth.
-/

namespace WorkflowEngine.Toml

/-- Values nest less deep than this, and a key has fewer names. -/
def depthLimit : Nat := 80

/-! ## Keys -/

/-- Whether a character may stand in a name without quotes. -/
def isNameChar (c : Char) : Bool := c.isAlphanum || c == '_' || c == '-'

/-- Reads one name of a key. -/
def readName : List Char → Option (String × List Char)
  | '"' :: rest => (readText rest).map fun r => (String.ofList r.1, r.2)
  | '\'' :: rest => (readLiteral rest).map fun r => (String.ofList r.1, r.2)
  | cs =>
    let (name, rest) := cs.span isNameChar
    if name.isEmpty then none else some (String.ofList name, rest)

/-- Reads names with points between them, blanks around each name. -/
def readNames : Nat → List Char → Option (List String × List Char)
  | 0, _ => none
  | fuel + 1, cs => do
    let (name, rest) ← readName (skipBlanks cs)
    match skipBlanks rest with
    | '.' :: rest =>
      let (names, rest) ← readNames fuel rest
      return (name :: names, rest)
    | rest => return ([name], rest)

/-- Reads a key: the names that lead to its table, and its name there. -/
def readKey (cs : List Char) : Option ((List String × String) × List Char) := do
  let (names, rest) ← readNames depthLimit cs
  let last ← names.getLast?
  if names.length < depthLimit then return ((names.dropLast, last), rest) else none

/-! ## Values -/

/-- Skips blanks, line ends and comments; `comment` says whether a comment is under way. -/
def skipSpace (comment : Bool) : List Char → Option (List Char)
  | [] => some []
  | '\n' :: rest => skipSpace false rest
  | '\r' :: '\n' :: rest => skipSpace false rest
  | c :: rest =>
    if comment then if isPlain c then skipSpace true rest else none
    else if isLineBlank c then skipSpace false rest
    else if c = '#' then skipSpace true rest
    else some (c :: rest)

/-- Reads a text between quotes or apostrophes. -/
def readQuoted : List Char → Option (List Char × List Char)
  | '"' :: '"' :: '"' :: rest => readLongText false (dropFirstLineEnd rest)
  | '"' :: rest => readText rest
  | '\'' :: '\'' :: '\'' :: rest => readLongLiteral (dropFirstLineEnd rest)
  | '\'' :: rest => readLiteral rest
  | _ => none

mutual

/-- Reads a value in which lists and tables nest less than `depth` deep. -/
def readValue : (fuel depth : Nat) → List Char → Option (Node × List Char)
  | 0, _, _ => none
  | fuel + 1, depth, cs =>
    match cs with
    | '[' :: rest =>
      match depth with
      | 0 => none
      | depth + 1 => (readItems fuel depth rest).map fun r => (.list r.1, r.2)
    | '{' :: rest =>
      match depth with
      | 0 => none
      | depth + 1 =>
        match skipBlanks rest with
        | '}' :: rest => some (.table .braces [], rest)
        | rest => do
          let (ps, rest) ← readPairs fuel depth rest
          return (← Node.ofPairs ps, rest)
    | '"' :: _ | '\'' :: _ => (readQuoted cs).map fun r => (.text (String.ofList r.1), r.2)
    | cs => readWord cs

/-- Reads the items of a list up to its bracket; a comma may stand after the last one. -/
def readItems : (fuel depth : Nat) → List Char → Option (List Node × List Char)
  | 0, _, _ => none
  | fuel + 1, depth, cs => do
    match ← skipSpace false cs with
    | ']' :: rest => return ([], rest)
    | cs =>
      let (v, rest) ← readValue fuel depth cs
      match ← skipSpace false rest with
      | ',' :: rest =>
        let (vs, rest) ← readItems fuel depth rest
        return (v :: vs, rest)
      | ']' :: rest => return ([v], rest)
      | _ => none

/-- Reads the pairs of a table between braces up to its closing brace. -/
def readPairs : (fuel depth : Nat) → List Char → Option (List Table.Pair × List Char)
  | 0, _, _ => none
  | fuel + 1, depth, cs => do
    let (p, rest) ← readPair fuel depth cs
    match skipBlanks rest with
    | ',' :: rest =>
      let (ps, rest) ← readPairs fuel depth rest
      return (p :: ps, rest)
    | '}' :: rest => return ([p], rest)
    | _ => none

/-- Reads a key and its value. -/
def readPair : (fuel depth : Nat) → List Char → Option (Table.Pair × List Char)
  | 0, _, _ => none
  | fuel + 1, depth, cs => do
    let ((path, name), rest) ← readKey cs
    match rest with
    | '=' :: rest =>
      let (v, rest) ← readValue fuel depth (skipBlanks rest)
      return (⟨path, name, v⟩, rest)
    | _ => none

end

/-! ## Lines -/

/-- What a line says. -/
inductive Line where
  /-- A value under a key. -/
  | pair (p : Table.Pair)
  /-- The table to which the pairs that follow belong. -/
  | header (h : Table.Header)

/-- The rest after blanks, a comment, and the end of a line or of the text. -/
def endLine? (cs : List Char) : Option (List Char) :=
  let rest := match skipBlanks cs with
    | '#' :: rest => rest.dropWhile isPlain
    | rest => rest
  if rest.isEmpty then some [] else afterLine? rest

/-- Reads a header after its opening brackets. -/
def readHeader (make : List String → String → Table.Header) (closing : List Char)
    (cs : List Char) : Option (Line × List Char) := do
  let ((path, name), rest) ← readKey cs
  if closing.isPrefixOf rest then return (.header (make path name), rest.drop closing.length)
  else none

/-- Reads what a line says. -/
def readLine (fuel : Nat) : List Char → Option (Line × List Char)
  | '[' :: '[' :: rest => readHeader .item [']', ']'] rest
  | '[' :: rest => readHeader .table [']'] rest
  | cs => (readPair fuel (depthLimit - 1) cs).map fun r => (.pair r.1, r.2)

/-- Reads lines to the end of the text. -/
def readLines : Nat → List Char → Option (List Line)
  | 0, _ => none
  | fuel + 1, cs =>
    match skipBlanks cs with
    | [] => some []
    | cs =>
      match endLine? cs with
      | some rest => readLines fuel rest
      | none => do
        let (line, rest) ← readLine (3 * cs.length + 3) cs
        let lines ← readLines fuel (← endLine? rest)
        return line :: lines

/-! ## The table of a file -/

/-- The pairs that stand before all headers, and each header with the pairs after it. -/
def sections : List Line → List Table.Pair × List (Table.Header × List Table.Pair)
  | [] => ([], [])
  | .pair p :: rest => (p :: (sections rest).1, (sections rest).2)
  | .header h :: rest => ([], (h, (sections rest).1) :: (sections rest).2)

/-- The table of lines. -/
def Table.ofLines (lines : List Line) : Option Table := do
  let (first, rest) := sections lines
  rest.foldlM addSection (← addPairs ⟨.header, []⟩ first)

/-- The table of a text, which may begin with a mark of its byte order. -/
def Table.ofText? (text : String) : Option Table :=
  let cs := match text.toList with
    | '\ufeff' :: rest => rest
    | cs => cs
  (readLines (cs.length + 1) cs).bind ofLines

end WorkflowEngine.Toml
