import WorkflowEngine.Json.Syntax
import WorkflowEngine.Yaml.Cursor

/-!
# Scalars in YAML texts

The four ways to write a scalar: plain, in single or double quotes, and as a block of lines. Line
breaks within the first three are folded; a block keeps them or folds them, as its indicator says.
-/

namespace WorkflowEngine.Yaml

/-- How a scalar is written. -/
inductive ScalarStyle where
  /-- Without quotes. -/
  | plain
  /-- In quotes, or as a block whose lines are folded. -/
  | quoted
  /-- As a block that keeps its lines. -/
  | literal
  deriving DecidableEq, Repr, Inhabited

/-! ## Space within a scalar -/

/-- Blanks and breaks between two parts of a scalar. -/
structure Space where
  /-- Blanks on the line of the part before, last first. -/
  blanks : List Char
  /-- Whether a break has been seen. -/
  broken : Bool
  /-- The first break. -/
  first : Option Char
  /-- The breaks after the first one, last first. -/
  more : List Char

namespace Space

/-- No space. -/
def none : Space := ⟨[], false, .none, []⟩

/-- What the space stands for. -/
def text (s : Space) : List Char :=
  if s.broken then foldBreaks s.first s.more.reverse else s.blanks.reverse

/-- Adds a break. -/
def addBreak (s : Space) (c : Char) : Space :=
  if s.broken then { s with more := c :: s.more } else ⟨[], true, some c, s.more⟩

end Space

/-- Reads blanks and breaks. In a plain scalar a tab may not stand where a line's indentation is to
be. -/
def readSpace (indent : Option Int) : Nat → Space → Cursor → Except Flaw (Space × Cursor)
  | 0, s, c => .ok (s, c)
  | fuel + 1, s, c =>
    match c.head? with
    | some ch =>
      if isBlank ch then
        if s.broken then
          if ch == '\t' && indent.any fun i => (c.column : Int) < i then
            .error .tabInIndentation
          else readSpace indent fuel s c.next
        else readSpace indent fuel { s with blanks := ch :: s.blanks } c.next
      else if isBreak ch then readSpace indent fuel (s.addBreak ch) c.next
      else .ok (s, c)
    | none => .ok (s, c)

/-! ## Plain scalars -/

/-- Whether a plain scalar ends here. -/
def endsPlain (inFlow : Bool) (c : Cursor) : Bool :=
  (c.starts ':' && c.gapAt 1) ||
    (inFlow && c.head?.any fun ch => ch ∈ [',', '[', ']', '{', '}'])

/-- Whether a colon stands here that a plain scalar in brackets cannot have. -/
def hasLooseColon (inFlow : Bool) (c : Cursor) : Bool :=
  inFlow && c.starts ':' && (c.peek? 1).any fun ch => ch ∈ [',', '?', '[', ']', '{', '}']

/-- What has been read of a plain scalar, last first, the space after it, and the position. -/
structure PlainProgress where
  /-- The characters, last first. -/
  read : List Char
  /-- Space after them. -/
  space : Space
  /-- The position. -/
  cursor : Cursor

/-- Reads a plain scalar from a part of it on. -/
def readPlainFrom (inFlow : Bool) (indent : Int) :
    Nat → PlainProgress → Except Flaw PlainProgress
  | 0, p => .ok p
  | fuel + 1, p =>
    let c := p.cursor
    match c.head? with
    | none => .ok p
    | some ch =>
      if isBlank ch || isBreak ch then do
        let (space, c) ← readSpace (some indent) (c.rest.length + 1) p.space c
        let p : PlainProgress := ⟨p.read, space, c⟩
        if !inFlow && (c.column : Int) < indent then .ok p
        else if c.atDocumentBound || c.starts '#' then .ok p
        else readPlainFrom inFlow indent fuel p
      else if hasLooseColon inFlow c then .error .looseColon
      else if endsPlain inFlow c then .ok p
      else
        readPlainFrom inFlow indent fuel
          ⟨ch :: (p.space.text.reverse ++ p.read), .none, c.next⟩

/-- Reads a plain scalar; says also whether it ends after a line break. -/
def readPlain (inFlow : Bool) (indent : Int) (c : Cursor) :
    Except Flaw (List Char × Bool × Cursor) := do
  let p ← readPlainFrom inFlow indent (c.rest.length + 1) ⟨[], .none, c⟩
  return (p.read.reverse, p.space.broken, p.cursor)

/-! ## Quoted scalars -/

/-- An escape in double quotes: a character, or that a number of hexadecimal digits follows. -/
def escape? (c : Char) : Option (Char ⊕ Nat) :=
  match c with
  | '0' => some (.inl '\x00')
  | 'a' => some (.inl '\x07')
  | 'b' => some (.inl '\x08')
  | 't' => some (.inl '\t')
  | '\t' => some (.inl '\t')
  | 'n' => some (.inl '\n')
  | 'v' => some (.inl '\x0b')
  | 'f' => some (.inl '\x0c')
  | 'r' => some (.inl '\r')
  | 'e' => some (.inl '\x1b')
  | ' ' => some (.inl ' ')
  | '"' => some (.inl '"')
  | '/' => some (.inl '/')
  | '\\' => some (.inl '\\')
  | 'N' => some (.inl (Char.ofNat 0x85))
  | '_' => some (.inl (Char.ofNat 0xA0))
  | 'L' => some (.inl (Char.ofNat 0x2028))
  | 'P' => some (.inl (Char.ofNat 0x2029))
  | 'x' => some (.inr 2)
  | 'u' => some (.inr 4)
  | 'U' => some (.inr 8)
  | _ => none

/-- The character of a number of hexadecimal digits. -/
def readCode (digits : Nat) (c : Cursor) : Except Flaw (Char × Cursor) := do
  let taken := c.rest.take digits
  if taken.length < digits then throw .noHexadecimal
  let some values := taken.mapM Json.Syntax.hexValue?
    | throw .noHexadecimal
  let n := values.foldl (fun n v => 16 * n + v) 0
  if (0xD800 ≤ n ∧ n ≤ 0xDFFF) ∨ 0x10FFFF < n then
    throw .invalidCode
  return (Char.ofNat n, c.skip digits)

/-- Reads a quoted scalar up to its closing quote; `read` holds what has been read, last first. -/
def readQuotedFrom (single : Bool) :
    Nat → (read : List Char) → Cursor → Except Flaw (List Char × Cursor)
  | 0, _, _ => .error .unclosedQuote
  | fuel + 1, read, c =>
    if c.atDocumentBound then .error .documentMarkInQuote
    else match c.head? with
    | none => .error .unclosedQuote
    | some ch =>
      if isBlank ch || isBreak ch then do
        let (space, c) ← readSpace none (c.rest.length + 1) .none c
        readQuotedFrom single fuel (space.text.reverse ++ read) c
      else if single then
        if ch == '\'' then
          if c.peek? 1 == some '\'' then readQuotedFrom single fuel ('\'' :: read) (c.skip 2)
          else .ok (read.reverse, c.next)
        else readQuotedFrom single fuel (ch :: read) c.next
      else if ch == '"' then .ok (read.reverse, c.next)
      else if ch == '\\' then
        match c.peek? 1 with
        | none => .error .unknownEscape
        | some e =>
          if isBreak e then do
            let (space, c) ← readSpace none (c.rest.length + 1) ⟨[], true, none, []⟩ (c.skip 2)
            readQuotedFrom single fuel (space.text.reverse ++ read) c
          else match escape? e with
            | none => .error .unknownEscape
            | some (.inl ch) => readQuotedFrom single fuel (ch :: read) (c.skip 2)
            | some (.inr digits) => do
              let (ch, c) ← readCode digits (c.skip 2)
              readQuotedFrom single fuel (ch :: read) c
      else readQuotedFrom single fuel (ch :: read) c.next

/-- Reads a quoted scalar after its opening quote. -/
def readQuoted (single : Bool) (c : Cursor) : Except Flaw (List Char × Cursor) :=
  readQuotedFrom single (c.rest.length + 1) [] c

/-! ## Block scalars -/

/-- What becomes of the breaks at the end of a block. -/
inductive Chomping where
  /-- All are dropped. -/
  | strip
  /-- One stays. -/
  | clip
  /-- All stay. -/
  | keep
  deriving DecidableEq, Repr

/-- Reads a mark that says what becomes of the breaks at the end. -/
def readChomping? (c : Cursor) : Option (Chomping × Cursor) :=
  match c.head? with
  | some '+' => some (.keep, c.next)
  | some '-' => some (.strip, c.next)
  | _ => none

/-- Reads a digit that says how far the block is indented. -/
def readIncrement? (c : Cursor) : Except Flaw (Option Nat × Cursor) :=
  match c.head? with
  | some ch =>
    if ch == '0' then .error .zeroIncrement
    else if ch.isDigit then .ok (some (ch.toNat - 48), c.next)
    else .ok (none, c)
  | none => .ok (none, c)

/-- Reads the indicators of a block, in either order. -/
def readBlockHeader (c : Cursor) : Except Flaw (Chomping × Option Nat × Cursor) :=
  match readChomping? c with
  | some (chomping, c) => do
    let (increment, c) ← readIncrement? c
    return (chomping, increment, c)
  | none => do
    let (increment, c) ← readIncrement? c
    match increment, readChomping? c with
    | some _, some (chomping, c) => return (chomping, increment, c)
    | _, _ => return (.clip, increment, c)

/-- Empty lines of a block: the breaks, last first, and the greatest column reached. While the
indentation is not known, it is nought. -/
def readEmptyLines (indent : Nat) :
    Nat → (breaks : List Char) → (reached : Nat) → Cursor →
      Except Flaw (List Char × Nat × Cursor)
  | 0, breaks, reached, c => .ok (breaks, reached, c)
  | fuel + 1, breaks, reached, c =>
    let spaces := (c.rest.takeWhile (· == ' ')).length
    let c := c.skip (if indent = 0 then spaces else min spaces (indent - c.column))
    let reached := max reached c.column
    if c.starts '\t' && (indent = 0 || c.column < indent) then
      .error .tabForSpace
    else match c.head? with
    | some ch =>
      if isBreak ch then readEmptyLines indent fuel (ch :: breaks) reached c.next
      else .ok (breaks, reached, c)
    | none => .ok (breaks, reached, c)

/-- What has been read of a block. -/
structure BlockProgress where
  /-- The characters, last first. -/
  read : List Char
  /-- The break after them. -/
  first : Option Char
  /-- The breaks after that, last first. -/
  more : List Char
  /-- Whether the line before began with a blank. -/
  indented : Bool
  /-- The position. -/
  cursor : Cursor

/-- The breaks between two lines of a block. -/
def betweenLines (literal : Bool) (p : BlockProgress) (indented : Bool) : List Char :=
  if !literal && p.first == some '\n' && !p.indented && !indented then
    foldBreaks p.first p.more.reverse
  else p.first.toList ++ p.more.reverse

/-- Reads the lines of a block. -/
def readBlockLines (literal : Bool) (indent : Nat) :
    Nat → BlockProgress → Except Flaw BlockProgress
  | 0, p => .ok p
  | fuel + 1, p =>
    let c := p.cursor
    if c.column = indent ∧ c.head?.isSome then do
      let indented := c.atBlank
      let (line, c) := c.span fun ch => !isBreak ch
      let read := line.reverse ++ ((betweenLines literal p indented).reverse ++ p.read)
      let first := c.head?
      let (more, _, c) ← readEmptyLines indent (c.rest.length + 1) [] 0 c.next
      readBlockLines literal indent fuel ⟨read, first, more, indented, c⟩
    else .ok p

/-- Reads a block scalar after its indicator, inside a collection indented by `parent`. -/
def readBlock (literal : Bool) (parent : Int) (c : Cursor) :
    Except Flaw (List Char × Cursor) := do
  let (chomping, increment, c) ← readBlockHeader c
  let c ← c.endLine
  let given := match increment with
    | some n => (if 0 ≤ parent then parent + n else n).toNat
    | none => 0
  let (breaks, reached, c) ← readEmptyLines given (c.rest.length + 1) [] 0 c
  let indent := if given = 0 then max reached (max (parent + 1).toNat 1) else given
  let p ← readBlockLines literal indent (c.rest.length + 1) ⟨[], none, breaks, false, c⟩
  let tail := match chomping with
    | .strip => []
    | .clip => p.first.toList
    | .keep => p.first.toList ++ p.more.reverse
  return (p.read.reverse ++ tail, p.cursor)

end WorkflowEngine.Yaml
