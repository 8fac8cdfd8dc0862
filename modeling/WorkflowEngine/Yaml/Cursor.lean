import WorkflowEngine.Yaml.Flaw

/-!
# A position in a YAML text

A cursor holds what is left of a text and where that is: how many characters, lines and columns
stand before it. Line breaks of every form but two become one character before reading starts.
-/

namespace WorkflowEngine.Yaml

/-! ## Characters -/

/-- Characters that a YAML text may hold. -/
def isAllowed (c : Char) : Bool :=
  let n := c.toNat
  n == 0x09 || n == 0x0A || n == 0x0D || (0x20 ≤ n && n ≤ 0x7E) || n == 0x85 ||
    (0xA0 ≤ n && n ≤ 0xD7FF) || (0xE000 ≤ n && n ≤ 0xFFFD) || 0x10000 ≤ n

/-- Line breaks. -/
def isBreak (c : Char) : Bool := c == '\n' || c.toNat == 0x2028 || c.toNat == 0x2029

/-- Blanks within a line. -/
def isBlank (c : Char) : Bool := c == ' ' || c == '\t'

/-- Characters of names. -/
def isNameChar (c : Char) : Bool := c.isAlphanum || c == '_' || c == '-'

/-- One form for the breaks that stand for nothing but a new line. -/
def normalizeBreaks : List Char → List Char
  | '\r' :: '\n' :: rest => '\n' :: normalizeBreaks rest
  | '\r' :: rest => '\n' :: normalizeBreaks rest
  | c :: rest => (if c.toNat == 0x85 then '\n' else c) :: normalizeBreaks rest
  | [] => []

/-! ## Cursors -/

/-- A position in a text. -/
structure Cursor where
  /-- What is left of the text. -/
  rest : List Char
  /-- Characters before the position. -/
  index : Nat
  /-- Lines before the position. -/
  line : Nat
  /-- Characters before the position on its line. -/
  column : Nat
  deriving Inhabited

namespace Cursor

/-- The start of a text. -/
def start (text : List Char) : Cursor := ⟨text, 0, 0, 0⟩

/-- The character at the position. -/
def head? (c : Cursor) : Option Char := c.rest.head?

/-- The character `n` places further on. -/
def peek? (c : Cursor) (n : Nat) : Option Char := (c.rest.drop n).head?

/-- Whether a character stands at the position. -/
def starts (c : Cursor) (ch : Char) : Bool := c.head? == some ch

/-- The position after the next character. -/
def next (c : Cursor) : Cursor :=
  match c.rest with
  | [] => c
  | ch :: rest =>
    if isBreak ch then ⟨rest, c.index + 1, c.line + 1, 0⟩
    else ⟨rest, c.index + 1, c.line, c.column + 1⟩

/-- The position at the beginning of a line, of a new one if something stands on this one. -/
def closeLine (c : Cursor) : Cursor :=
  if c.column = 0 then c else { c with line := c.line + 1, column := 0 }

/-- The position after several characters. -/
def skip (c : Cursor) : Nat → Cursor
  | 0 => c
  | n + 1 => c.next.skip n

/-- Splits off the characters of a class that has no line breaks. -/
def span (c : Cursor) (p : Char → Bool) : List Char × Cursor :=
  let (taken, rest) := c.rest.span p
  let n := taken.length
  (taken, ⟨rest, c.index + n, c.line, c.column + n⟩)

/-- The position after the characters of a class that has no line breaks. -/
def dropWhile (c : Cursor) (p : Char → Bool) : Cursor := (c.span p).2

/-- Whether the text or the line ends here. -/
def atLineEnd (c : Cursor) : Bool := c.head?.all isBreak

/-- Whether a blank, the end of the line or the end of the text stands `n` places further on. -/
def gapAt (c : Cursor) (n : Nat) : Bool := (c.peek? n).all fun ch => isBlank ch || isBreak ch

/-- Whether a blank, the end of the line or the end of the text stands here. -/
def atGap (c : Cursor) : Bool := c.gapAt 0

/-- Whether a blank stands here. -/
def atBlank (c : Cursor) : Bool := c.head?.any isBlank

/-- Whether a line break stands here. -/
def atBreak (c : Cursor) : Bool := c.head?.any isBreak

/-- Whether three marks that bound a document stand here, at the beginning of a line. -/
def atDocumentMark (c : Cursor) (mark : Char) : Bool :=
  c.column == 0 && c.rest.take 3 == [mark, mark, mark] && c.gapAt 3

/-- Whether a document begins or ends here. -/
def atDocumentBound (c : Cursor) : Bool := c.atDocumentMark '-' || c.atDocumentMark '.'

/-- The position after blanks and a comment, where the line has to end, and after its break. -/
def endLine (c : Cursor) : Except Flaw Cursor :=
  let c := c.dropWhile isBlank
  let c := if c.starts '#' then c.dropWhile fun ch => !isBreak ch else c
  if c.atBreak then .ok c.next
  else if c.atLineEnd then .ok c
  else .error .noLineEnd

end Cursor

/-- Line breaks between two parts of a text: a single one becomes a blank, of several the first is
dropped. A break that cannot be folded stays. -/
def foldBreaks (first : Option Char) (more : List Char) : List Char :=
  match first with
  | some '\n' => if more.isEmpty then [' '] else more
  | some c => c :: more
  | none => more

end WorkflowEngine.Yaml
