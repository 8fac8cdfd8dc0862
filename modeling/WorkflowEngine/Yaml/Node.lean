import WorkflowEngine.Yaml.Token

/-!
# Nodes of YAML texts

Tokens form the node of a document: scalars, lists and maps with their tags, and references to nodes
that carry an anchor. Where tokens break off or do not fit, the node breaks off as well, after
everything that stands before.

A reference stands for the node that was given its anchor's number last. Numbers are given out by
counting the distinct names of anchors seen so far, so that the number of a name that is used again
may be given to another name later.
-/

namespace WorkflowEngine.Yaml

/-- What may stand before a node. -/
structure Properties where
  /-- The place of the node among those with anchors. -/
  anchored : Option Nat
  /-- The full tag. -/
  tag : Option String
  deriving DecidableEq, Repr, Inhabited

/-- A node as written. -/
inductive Node where
  /-- A scalar. -/
  | scalar (properties : Properties) (style : ScalarStyle) (text : String)
  /-- A list. -/
  | sequence (properties : Properties) (items : List Node)
  /-- A map. -/
  | mapping (properties : Properties) (entries : List (Node × Node))
  /-- A reference, by the number of its anchor. -/
  | reference (anchor : Nat)
  /-- The text cannot be read beyond this point. -/
  | broken (flaw : Flaw)
  deriving Inhabited

/-- The node of nothing. -/
def Node.empty : Node := .scalar default .plain ""

/-! ## Reading nodes from tokens -/

/-- What is known while nodes are read. -/
structure NodeReader where
  /-- The tokens left. -/
  tokens : List Token
  /-- What handles stand for. -/
  handles : List (String × String)
  /-- Numbers by the names of anchors. -/
  anchors : List (String × Nat)
  /-- Places of nodes by the numbers of anchors, the latest first. -/
  places : List (Nat × Nat)
  /-- How many nodes had anchors. -/
  count : Nat
  deriving Inhabited

namespace NodeReader

/-- The next token. -/
def peek (r : NodeReader) : Token := r.tokens.headD (.fault .endOfTokens)

/-- Passes over a token. -/
def skip (r : NodeReader) : NodeReader := { r with tokens := r.tokens.drop 1 }

/-- Breaks off with an error. -/
def fail (r : NodeReader) (flaw : Flaw) : NodeReader := { r with tokens := [.fault flaw] }

/-- Gives a node its anchor. -/
def placeAnchor (r : NodeReader) (name : String) : Nat × NodeReader :=
  let number := r.anchors.length
  let anchors := (name, number) :: r.anchors.filter fun a => a.1 != name
  (r.count, { r with
    anchors := anchors, places := (number, r.count) :: r.places, count := r.count + 1 })

/-- The full tag of a handle and a suffix. -/
def fullTag? (r : NodeReader) (handle suffix : String) : Option String :=
  if handle = "" then some suffix else (r.handles.lookup handle).map fun start => start ++ suffix

/-- The anchor and the tag before a node, as written. -/
def readMarks (r : NodeReader) : (Option String × Option (String × String)) × NodeReader :=
  match r.peek with
  | .anchor name =>
    let r := r.skip
    match r.peek with
    | .tag handle suffix => ((some name, some (handle, suffix)), r.skip)
    | _ => ((some name, none), r)
  | .tag handle suffix =>
    let r := r.skip
    match r.peek with
    | .anchor name => ((some name, some (handle, suffix)), r.skip)
    | _ => ((none, some (handle, suffix)), r)
  | _ => ((none, none), r)

/-- Whether a node of some kind begins with a token. -/
def beginsNode (block indentless : Bool) : Token → Bool
  | .scalar _ _ | .flowSequenceStart | .flowMappingStart => true
  | .blockSequenceStart | .blockMappingStart => block
  | .blockEntry => indentless
  | _ => false

/-- The properties of a node whose full tag is known. -/
def properties (r : NodeReader) (anchor : Option String) (tag : Option String) :
    Properties × NodeReader :=
  match anchor with
  | some name =>
    let (place, r) := r.placeAnchor name
    (⟨some place, tag⟩, r)
  | none => (⟨none, tag⟩, r)

/-- The tag of a scalar: a lone exclamation mark is none. -/
def scalarTag (tag : Option String) : Option String := tag.filter fun t => t != "!"

/-- Tokens before which a value that has begun is empty, in a list by indentation. -/
def endsItem (indentless : Bool) : Token → Bool
  | .blockEntry | .blockEnd => true
  | .key | .value => indentless
  | _ => false

/-- Tokens before which a key or a value that has begun is empty, in a map by indentation. -/
def endsEntry : Token → Bool
  | .key | .value | .blockEnd => true
  | _ => false

mutual

/-- Reads a node. A node by indentation may stand where `block` says so, and a list without an
indentation of its own where `indentless` says so. -/
def readNode (block indentless : Bool) : Nat → NodeReader → Node × NodeReader
  | 0, r => (.broken .tooLong, r.fail .tooLong)
  | fuel + 1, r =>
    match r.peek with
    | .fault flaw => (.broken flaw, r)
    | .alias name =>
      match r.anchors.lookup name with
      | some number => (.reference number, r.skip)
      | none => (.broken .unknownAnchor, r.fail .unknownAnchor)
    | _ =>
      let ((anchor, written), r) := r.readMarks
      let tag := written.map fun t => r.fullTag? t.1 t.2
      match r.peek, tag with
      | .fault flaw, _ => (.broken flaw, r)
      | _, some none => (.broken .undefinedHandle, r.fail .undefinedHandle)
      | t, tag =>
        let tag := tag.bind fun t => t
        if beginsNode block indentless t then
          match t with
          | .scalar text style =>
            let (p, r) := r.properties anchor (scalarTag tag)
            (.scalar p style text, r.skip)
          | .flowSequenceStart =>
            let (p, r) := r.properties anchor tag
            let (items, r) := readFlowItems true fuel r.skip
            (.sequence p items, r)
          | .flowMappingStart =>
            let (p, r) := r.properties anchor tag
            let (entries, r) := readFlowEntries true fuel r.skip
            (.mapping p entries, r)
          | .blockSequenceStart =>
            let (p, r) := r.properties anchor tag
            let (items, r) := readBlockItems false fuel r.skip
            (.sequence p items, r)
          | .blockMappingStart =>
            let (p, r) := r.properties anchor tag
            let (entries, r) := readBlockEntries fuel r.skip
            (.mapping p entries, r)
          | _ =>
            let (p, r) := r.properties anchor tag
            let (items, r) := readBlockItems true fuel r
            (.sequence p items, r)
        else if anchor.isSome || tag.isSome then
          let (p, r) := r.properties anchor tag
          (.scalar p .plain "", r)
        else (.broken .noContent, r.fail .noContent)

/-- Reads the items of a list by indentation; one without an indentation of its own ends without a
token. -/
def readBlockItems (indentless : Bool) : Nat → NodeReader → List Node × NodeReader
  | 0, r => ([.broken .tooLong], r.fail .tooLong)
  | fuel + 1, r =>
    match r.peek with
    | .fault flaw => ([.broken flaw], r)
    | .blockEntry =>
      let r := r.skip
      match r.peek with
      | .fault flaw => ([.broken flaw], r)
      | t =>
        let (item, r) := if endsItem indentless t then (.empty, r) else readNode true false fuel r
        let (items, r) := readBlockItems indentless fuel r
        (item :: items, r)
    | .blockEnd => if indentless then ([], r) else ([], r.skip)
    | _ =>
      if indentless then ([], r)
      else ([.broken .noDash], r.fail .noDash)

/-- Reads the entries of a map by indentation. -/
def readBlockEntries : Nat → NodeReader → List (Node × Node) × NodeReader
  | 0, r => ([(.broken .tooLong, .empty)], r.fail .tooLong)
  | fuel + 1, r =>
    match r.peek with
    | .fault flaw => ([(.broken flaw, .empty)], r)
    | .key =>
      let r := r.skip
      match r.peek with
      | .fault flaw => ([(.broken flaw, .empty)], r)
      | t =>
        let (key, r) := if endsEntry t then (.empty, r) else readNode true true fuel r
        let (value, r) := readBlockValue fuel r
        let (entries, r) := readBlockEntries fuel r
        ((key, value) :: entries, r)
    | .blockEnd => ([], r.skip)
    | _ => ([(.broken .noKey, .empty)], r.fail .noKey)

/-- Reads the value of an entry of a map by indentation. -/
def readBlockValue : Nat → NodeReader → Node × NodeReader
  | 0, r => (.broken .tooLong, r.fail .tooLong)
  | fuel + 1, r =>
    match r.peek with
    | .fault flaw => (.broken flaw, r)
    | .value =>
      let r := r.skip
      match r.peek with
      | .fault flaw => (.broken flaw, r)
      | t => if endsEntry t then (.empty, r) else readNode true true fuel r
    | _ => (.empty, r)

/-- Reads the items of a list in brackets. -/
def readFlowItems (first : Bool) : Nat → NodeReader → List Node × NodeReader
  | 0, r => ([.broken .tooLong], r.fail .tooLong)
  | fuel + 1, r =>
    match r.peek with
    | .fault flaw => ([.broken flaw], r)
    | .flowSequenceEnd => ([], r.skip)
    | t =>
      let comma := match t with
        | .flowEntry => true
        | _ => false
      if !first && !comma then
        ([.broken .noCommaOrBracket], r.fail .noCommaOrBracket)
      else
        let r := if first then r else r.skip
        match r.peek with
        | .fault flaw => ([.broken flaw], r)
        | .flowSequenceEnd => ([], r.skip)
        | .key =>
          let (entry, r) := readPair fuel r.skip
          match r.peek with
          | .fault flaw => ([.mapping default [entry, (.broken flaw, .empty)]], r)
          | _ =>
            let (items, r) := readFlowItems false fuel r
            (.mapping default [entry] :: items, r)
        | _ =>
          let (item, r) := readNode false false fuel r
          let (items, r) := readFlowItems false fuel r
          (item :: items, r)

/-- Reads an entry that stands for itself in a list in brackets, after the token of its key. -/
def readPair : Nat → NodeReader → (Node × Node) × NodeReader
  | 0, r => ((.broken .tooLong, .empty), r.fail .tooLong)
  | fuel + 1, r =>
    let (key, r) : Node × NodeReader := match r.peek with
      | .fault flaw => (.broken flaw, r)
      | .value | .flowEntry | .flowSequenceEnd => (.empty, r.skip)
      | _ => readNode false false fuel r
    match r.peek with
    | .fault flaw => ((key, .broken flaw), r)
    | .value =>
      let r := r.skip
      match r.peek with
      | .fault flaw => ((key, .broken flaw), r)
      | .flowEntry | .flowSequenceEnd => ((key, .empty), r)
      | _ =>
        let (value, r) := readNode false false fuel r
        ((key, value), r)
    | _ => ((key, .empty), r)

/-- Reads the entries of a map in braces. -/
def readFlowEntries (first : Bool) : Nat → NodeReader → List (Node × Node) × NodeReader
  | 0, r => ([(.broken .tooLong, .empty)], r.fail .tooLong)
  | fuel + 1, r =>
    match r.peek with
    | .fault flaw => ([(.broken flaw, .empty)], r)
    | .flowMappingEnd => ([], r.skip)
    | t =>
      let comma := match t with
        | .flowEntry => true
        | _ => false
      if !first && !comma then
        ([(.broken .noCommaOrBrace, .empty)], r.fail .noCommaOrBrace)
      else
        let r := if first then r else r.skip
        match r.peek with
        | .fault flaw => ([(.broken flaw, .empty)], r)
        | .flowMappingEnd => ([], r.skip)
        | .key =>
          let r := r.skip
          let (key, r) : Node × NodeReader := match r.peek with
            | .fault flaw => (.broken flaw, r)
            | .value | .flowEntry | .flowMappingEnd => (.empty, r)
            | _ => readNode false false fuel r
          let (value, r) := readFlowValue fuel r
          let (entries, r) := readFlowEntries false fuel r
          ((key, value) :: entries, r)
        | _ =>
          let (key, r) := readNode false false fuel r
          match r.peek with
          | .fault flaw => ([(key, .broken flaw)], r)
          | _ =>
            let (entries, r) := readFlowEntries false fuel r
            ((key, .empty) :: entries, r)

/-- Reads the value of an entry of a map in braces. -/
def readFlowValue : Nat → NodeReader → Node × NodeReader
  | 0, r => (.broken .tooLong, r.fail .tooLong)
  | fuel + 1, r =>
    match r.peek with
    | .fault flaw => (.broken flaw, r)
    | .value =>
      let r := r.skip
      match r.peek with
      | .fault flaw => (.broken flaw, r)
      | .flowEntry | .flowMappingEnd => (.empty, r)
      | _ => readNode false false fuel r
    | _ => (.empty, r)

end

/-! ## Documents -/

/-- Takes directives into account. -/
def readDirectives (versioned : Bool) : List Token → NodeReader → NodeReader
  | .directive (.version major minor) :: rest, r =>
    if versioned then r.fail .duplicateVersion
    else if major = 1 ∧ (minor = 1 ∨ minor = 2) then
      readDirectives true rest { r with tokens := rest }
    else r.fail .incompatibleVersion
  | .directive (.handle name start) :: rest, r =>
    if (r.handles.lookup name).isSome then r.fail .duplicateHandle
    else
      readDirectives versioned rest { r with tokens := rest, handles := (name, start) :: r.handles }
  | _, r => r

/-- What the usual handles stand for unless a directive says otherwise. -/
def usualHandles : List (String × String) := [("!", "!"), ("!!", "tag:yaml.org,2002:")]

/-- Whether there is no node before a token. -/
def endsContent : Token → Bool
  | .directive _ | .documentStart | .documentEnd | .streamEnd => true
  | _ => false

/-- Reads the node of a document that has no bounds. -/
def readBare (fuel : Nat) (r : NodeReader) : Node × NodeReader :=
  readNode true false fuel { r with handles := r.handles ++ usualHandles }

/-- Reads the node of a document with directives or a mark at its beginning. -/
def readMarked (fuel : Nat) (r : NodeReader) : Node × NodeReader :=
  let r := readDirectives false r.tokens r
  match r.peek with
  | .fault flaw => (.broken flaw, r)
  | .documentStart =>
    let r := { r.skip with handles := r.handles ++ usualHandles }
    match r.peek with
    | .fault flaw => (.broken flaw, r)
    | t => if endsContent t then (.empty, r) else readNode true false fuel r
  | _ => (.broken .noDocumentStart, r.fail .noDocumentStart)

/-- What stands after the first document, if it is an error. -/
def afterDocument : List Token → Option Flaw
  | .documentEnd :: rest => afterDocument rest
  | .streamEnd :: _ => none
  | .fault flaw :: _ => some flaw
  | _ => some .moreThanOneDocument

end NodeReader

/-- The first document of a text. -/
structure Document where
  /-- Its node; none if the text has no document. -/
  root : Option Node
  /-- Places of nodes by the numbers of their anchors. -/
  places : List (Nat × Nat)
  /-- Why the whole text is not a single document. -/
  tail : Option Flaw

/-- The first document of a text. -/
def Document.ofText (text : String) : Document :=
  let tokens := Token.ofText text
  let r : NodeReader := ⟨tokens, [], [], [], 0⟩
  let fuel := 4 * tokens.length + 16
  match r.peek with
  | .streamEnd => ⟨none, [], none⟩
  | .fault flaw => ⟨some (.broken flaw), [], some flaw⟩
  | t =>
    let (root, r) :=
      match t with
      | .directive _ | .documentStart => r.readMarked fuel
      | _ => r.readBare fuel
    ⟨some root, r.places, NodeReader.afterDocument r.tokens⟩

end WorkflowEngine.Yaml
