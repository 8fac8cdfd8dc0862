import WorkflowEngine.Yaml.Scalar
import WorkflowEngine.Yaml.Tag

/-!
# Tokens of YAML texts

A text is read into tokens: the bounds of documents and collections, entries, keys and values, and
the scalars with their properties. Indentation turns into bounds of collections.

Whether something is a key shows only at the colon after it, which has to stand on the same line and
not too far away. Until then a token that may begin a key is held back; when the colon is found, the
tokens that make it a key are put in front of it. Where the text breaks off with an error, the
tokens that were held back are not seen.
-/

namespace WorkflowEngine.Yaml

/-- A token. -/
inductive Token where
  /-- The end of the text. -/
  | streamEnd
  /-- A directive. -/
  | directive (d : Directive)
  /-- The beginning of a document. -/
  | documentStart
  /-- The end of a document. -/
  | documentEnd
  /-- The beginning of a list by indentation. -/
  | blockSequenceStart
  /-- The beginning of a map by indentation. -/
  | blockMappingStart
  /-- The end of a collection by indentation. -/
  | blockEnd
  /-- The beginning of a list in brackets. -/
  | flowSequenceStart
  /-- The end of a list in brackets. -/
  | flowSequenceEnd
  /-- The beginning of a map in braces. -/
  | flowMappingStart
  /-- The end of a map in braces. -/
  | flowMappingEnd
  /-- A dash before an item. -/
  | blockEntry
  /-- A comma. -/
  | flowEntry
  /-- What stands before a key. -/
  | key
  /-- What stands before a value. -/
  | value
  /-- A reference to an anchor. -/
  | alias (name : String)
  /-- An anchor. -/
  | anchor (name : String)
  /-- A tag. -/
  | tag (handle suffix : String)
  /-- A scalar. -/
  | scalar (text : String) (style : ScalarStyle)
  /-- The text cannot be read beyond this point. -/
  | fault (flaw : Flaw)
  deriving Repr, Inhabited

/-- A place that may turn out to begin a key. -/
structure KeyCandidate where
  /-- Number of the token that stands there. -/
  number : Nat
  /-- Whether something else than a key would be an error. -/
  required : Bool
  /-- Characters before it. -/
  index : Nat
  /-- Lines before it. -/
  line : Nat
  /-- Characters before it on its line. -/
  column : Nat

/-- What is known while tokens are read. -/
structure Scanner where
  /-- The position. -/
  cursor : Cursor
  /-- Tokens read and not yet given out. -/
  queue : List Token
  /-- Number of tokens given out. -/
  released : Nat
  /-- The current indentation; below every column at the top level. -/
  indent : Int
  /-- The indentations outside, the nearest first. -/
  indents : List Int
  /-- Whether a key may begin here. -/
  keyAllowed : Bool
  /-- The candidate outside all brackets, if brackets are open, and so on inwards;
  innermost first. -/
  candidates : List (Option KeyCandidate)
  deriving Inhabited

namespace Scanner

/-- The start of a text. -/
def start (text : List Char) : Scanner := ⟨.start text, [], 0, -1, [], true, [none]⟩

/-- Whether brackets are open. -/
def inFlow (s : Scanner) : Bool := 1 < s.candidates.length

/-- Adds a token. -/
def push (t : Token) (s : Scanner) : Scanner := { s with queue := s.queue ++ [t] }

/-- Puts a token in front of the one of a given number. -/
def pushAt (number : Nat) (t : Token) (s : Scanner) : Scanner :=
  let i := number - s.released
  { s with queue := s.queue.take i ++ t :: s.queue.drop i }

/-- Moves on by several characters. -/
def advance (n : Nat) (s : Scanner) : Scanner := { s with cursor := s.cursor.skip n }

/-- Says whether a key may begin here. -/
def allowKey (b : Bool) (s : Scanner) : Scanner := { s with keyAllowed := b }

/-! ## Candidates for keys -/

/-- Gives up the innermost candidate. -/
def dropCandidate (s : Scanner) : Except Flaw Scanner :=
  match s.candidates with
  | some k :: outer =>
    if k.required then .error .noColon else .ok { s with candidates := none :: outer }
  | _ => .ok s

/-- Notes that a key may begin here. -/
def noteCandidate (s : Scanner) : Except Flaw Scanner :=
  if s.keyAllowed then do
    let c := s.cursor
    let required := !s.inFlow && s.indent == c.column
    let k : KeyCandidate := ⟨s.released + s.queue.length, required, c.index, c.line, c.column⟩
    let s ← s.dropCandidate
    return { s with candidates := some k :: s.candidates.drop 1 }
  else .ok s

/-- Whether a candidate lies on an earlier line or too far back. -/
def isStale (c : Cursor) (k : KeyCandidate) : Bool := k.line < c.line || k.index + 1024 < c.index

/-- Gives up the candidates that lie too far back. -/
def dropStale (s : Scanner) : Except Flaw Scanner :=
  if s.candidates.any fun k => k.any fun k => isStale s.cursor k && k.required then .error .noColon
  else .ok { s with candidates := s.candidates.map fun k => k.filter fun k => !isStale s.cursor k }

/-! ## Indentation -/

/-- Begins a collection at a column, unless brackets are open or one is open there already. -/
def indentTo (column : Nat) (add : Scanner → Scanner) (s : Scanner) : Scanner :=
  if !s.inFlow && s.indent < column then
    add { s with indent := column, indents := s.indent :: s.indents }
  else s

/-- Ends the collections that are indented further than a column. -/
def closeTo (column : Int) (s : Scanner) : List Int → Scanner
  | [] => s
  | outer :: more =>
    if column < s.indent then
      closeTo column { s.push .blockEnd with indent := outer, indents := more } more
    else s

/-- Ends the collections that are indented further than a column, unless brackets are open. -/
def unindentTo (column : Int) (s : Scanner) : Scanner :=
  if s.inFlow then s else s.closeTo column s.indents

/-! ## Reading tokens -/

/-- Passes over blanks, comments and line breaks. -/
def skipGap : Nat → Scanner → Scanner
  | 0, s => s
  | fuel + 1, s =>
    let tabs := s.inFlow || !s.keyAllowed
    let c := s.cursor.dropWhile fun ch => ch == ' ' || (tabs && ch == '\t')
    let c := if c.starts '#' then c.dropWhile fun ch => !isBreak ch else c
    if c.atBreak then
      skipGap fuel { s with cursor := c.next, keyAllowed := s.keyAllowed || !s.inFlow }
    else { s with cursor := c }

/-- Passes over a mark of the byte order at the beginning of the text. -/
def skipByteOrderMark (s : Scanner) : Scanner :=
  if s.cursor.index = 0 ∧ s.cursor.head?.any fun c => c.toNat == 0xFEFF then s.advance 1 else s

/-- The end of the text, which ends the last line as well. -/
def readEnd (s : Scanner) : Except Flaw Scanner := do
  let s := { s with cursor := s.cursor.closeLine }.unindentTo (-1)
  let s ← s.dropCandidate
  return (s.allowKey false).push .streamEnd

/-- A directive. -/
def readDirectiveToken (s : Scanner) : Except Flaw Scanner := do
  let s ← (s.unindentTo (-1)).dropCandidate
  let (d, c) ← readDirective s.cursor.next
  return ({ s with cursor := c }.allowKey false).push (.directive d)

/-- The beginning or the end of a document. -/
def readBound (t : Token) (s : Scanner) : Except Flaw Scanner := do
  let s ← (s.unindentTo (-1)).dropCandidate
  return ((s.allowKey false).advance 3).push t

/-- An opening bracket. -/
def readOpening (t : Token) (s : Scanner) : Except Flaw Scanner := do
  let s ← s.noteCandidate
  return (({ s with candidates := none :: s.candidates }.allowKey true).advance 1).push t

/-- A closing bracket. -/
def readClosing (t : Token) (s : Scanner) : Except Flaw Scanner := do
  let s ← s.dropCandidate
  let s := if s.inFlow then { s with candidates := s.candidates.drop 1 } else s
  return ((s.allowKey false).advance 1).push t

/-- A comma. -/
def readComma (s : Scanner) : Except Flaw Scanner := do
  let s ← s.dropCandidate
  return ((s.allowKey true).advance 1).push .flowEntry

/-- A dash before an item. -/
def readDash (s : Scanner) : Except Flaw Scanner := do
  if !s.inFlow && !s.keyAllowed then throw .misplacedDash
  let s := s.indentTo s.cursor.column (push .blockSequenceStart)
  let s ← s.dropCandidate
  return ((s.allowKey true).advance 1).push .blockEntry

/-- A question mark before a key. -/
def readKeyMark (s : Scanner) : Except Flaw Scanner := do
  if !s.inFlow && !s.keyAllowed then throw .misplacedKey
  let s := s.indentTo s.cursor.column (push .blockMappingStart)
  let s ← s.dropCandidate
  return ((s.allowKey !s.inFlow).advance 1).push .key

/-- A colon before a value. If a candidate stands before it, that is a key. -/
def readColon (s : Scanner) : Except Flaw Scanner := do
  let s ← match s.candidates with
    | some k :: outer =>
      let s := s.pushAt k.number .key
      let s := s.indentTo k.column (pushAt k.number .blockMappingStart)
      pure ({ s with candidates := none :: outer }.allowKey false)
    | _ => do
      if !s.inFlow && !s.keyAllowed then throw .misplacedValue
      let s := s.indentTo s.cursor.column (push .blockMappingStart)
      pure (s.allowKey !s.inFlow)
  return (s.advance 1).push .value

/-- An anchor or a reference to one. -/
def readAnchorToken (t : String → Token) (s : Scanner) : Except Flaw Scanner := do
  let s ← s.noteCandidate
  let (name, c) ← readAnchor s.cursor.next
  return ({ s with cursor := c }.allowKey false).push (t name)

/-- A tag. -/
def readTagToken (s : Scanner) : Except Flaw Scanner := do
  let s ← s.noteCandidate
  let ((handle, suffix), c) ← readTag s.inFlow s.cursor
  return ({ s with cursor := c }.allowKey false).push (.tag handle suffix)

/-- A block scalar. -/
def readBlockToken (literal : Bool) (s : Scanner) : Except Flaw Scanner := do
  let s ← s.dropCandidate
  let (text, c) ← readBlock literal s.indent s.cursor.next
  let style := if literal then .literal else .quoted
  return ({ s with cursor := c }.allowKey true).push (.scalar (String.ofList text) style)

/-- A quoted scalar. -/
def readQuotedToken (single : Bool) (s : Scanner) : Except Flaw Scanner := do
  let s ← s.noteCandidate
  let (text, c) ← readQuoted single s.cursor.next
  return ({ s with cursor := c }.allowKey false).push (.scalar (String.ofList text) .quoted)

/-- A plain scalar. After a line break at its end a key may begin. -/
def readPlainToken (s : Scanner) : Except Flaw Scanner := do
  let s ← s.noteCandidate
  let (text, broken, c) ← readPlain s.inFlow (s.indent + 1) s.cursor
  return ({ s with cursor := c }.allowKey broken).push (.scalar (String.ofList text) .plain)

/-- Whether a plain scalar may begin here. -/
def startsPlain (inFlow : Bool) (c : Cursor) : Bool :=
  match c.head? with
  | none => false
  | some ch =>
    let indicator := ch ∈ ['-', '?', ':', ',', '[', ']', '{', '}', '#', '&', '*', '!', '|', '>',
      '\'', '"', '%', '@', '\x60']
    !(indicator || isBlank ch || isBreak ch) ||
      (ch == '-' && !(c.peek? 1).any isBlank) ||
      (!inFlow && (ch == '?' || ch == ':') && !c.gapAt 1)

/-- Reads the token that begins at the position. -/
def readToken (s : Scanner) : Except Flaw Scanner :=
  let c := s.cursor
  match c.head? with
  | none => s.readEnd
  | some ch =>
    if ch == '%' && c.column == 0 then s.readDirectiveToken
    else if c.atDocumentMark '-' then s.readBound .documentStart
    else if c.atDocumentMark '.' then s.readBound .documentEnd
    else if ch == '[' then s.readOpening .flowSequenceStart
    else if ch == '{' then s.readOpening .flowMappingStart
    else if ch == ']' then s.readClosing .flowSequenceEnd
    else if ch == '}' then s.readClosing .flowMappingEnd
    else if ch == ',' then s.readComma
    else if ch == '-' && c.gapAt 1 then s.readDash
    else if ch == '?' && (s.inFlow || c.gapAt 1) then s.readKeyMark
    else if ch == ':' && (s.inFlow || c.gapAt 1) then s.readColon
    else if ch == '*' then s.readAnchorToken .alias
    else if ch == '&' then s.readAnchorToken .anchor
    else if ch == '!' then s.readTagToken
    else if ch == '|' && !s.inFlow then s.readBlockToken true
    else if ch == '>' && !s.inFlow then s.readBlockToken false
    else if ch == '\'' then s.readQuotedToken true
    else if ch == '"' then s.readQuotedToken false
    else if startsPlain s.inFlow c then s.readPlainToken
    else .error .noToken

/-- Reads on by one token, and by those that indentation or a key bring with it. -/
def readOn (s : Scanner) : Except Flaw Scanner := do
  let s := s.skipByteOrderMark
  let s := skipGap (s.cursor.rest.length + 1) s
  let s ← s.dropStale
  (s.unindentTo s.cursor.column).readToken

/-- Whether the next token must be held back, since it may begin a key. -/
def isHeld (s : Scanner) : Bool :=
  s.candidates.any fun k => k.any fun k => k.number == s.released

/-- Gives out tokens until the end of the text or an error; `given` holds those given out, last
first. -/
def giveOut : Nat → (given : List Token) → Scanner → List Token
  | 0, given, _ => (Token.fault .tooLong :: given).reverse
  | fuel + 1, given, s =>
    match s.queue with
    | [] =>
      match s.readOn with
      | .ok s => giveOut fuel given s
      | .error flaw => (Token.fault flaw :: given).reverse
    | t :: more =>
      match s.dropStale with
      | .error flaw => (Token.fault flaw :: given).reverse
      | .ok s =>
        if s.isHeld then
          match s.readOn with
          | .ok s => giveOut fuel given s
          | .error flaw => (Token.fault flaw :: given).reverse
        else match t with
          | .streamEnd => (Token.streamEnd :: given).reverse
          | t => giveOut fuel (t :: given) { s with queue := more, released := s.released + 1 }

end Scanner

/-- The tokens of a text; the last one is the end of the text or an error. -/
def Token.ofText (text : String) : List Token :=
  let cs := text.toList
  if cs.all isAllowed then
    let cs := normalizeBreaks cs
    Scanner.giveOut (16 * cs.length + 64) [] (.start cs)
  else [.fault .controlCharacter]

end WorkflowEngine.Yaml
