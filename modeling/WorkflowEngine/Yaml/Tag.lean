import WorkflowEngine.Json.Syntax
import WorkflowEngine.Yaml.Cursor

/-!
# Tags and directives in YAML texts

A tag is written whole between angle brackets, or as a handle and a suffix; directives declare the
version of the language and what handles stand for.
-/

namespace WorkflowEngine.Yaml

/-- A directive. -/
inductive Directive where
  /-- The version of the language. -/
  | version (major minor : Nat)
  /-- What a handle stands for. -/
  | handle (name start : String)
  deriving DecidableEq, Repr, Inhabited

/-- Whether a character may stand in a tag as it is; inside brackets some more may. -/
def isTagChar (bracketed : Bool) (c : Char) : Bool :=
  isNameChar c ||
    c ∈ [';', '/', '?', ':', '@', '&', '=', '+', '$', '.', '!', '~', '*', '\'', '(', ')'] ||
    (bracketed && c ∈ [',', '[', ']'])

/-- A byte written as a percent sign and two digits. -/
def readByte? (c : Cursor) : Option (UInt8 × Cursor) :=
  match c.rest with
  | '%' :: a :: b :: _ =>
    match Json.Syntax.hexValue? a, Json.Syntax.hexValue? b with
    | some x, some y => some ((16 * x + y).toUInt8, c.skip 3)
    | _, _ => none
  | _ => none

/-- How many bytes the character takes that begins with a byte. -/
def byteCount (b : UInt8) : Nat :=
  if b < 0x80 then 1
  else if b &&& 0xE0 == 0xC0 then 2
  else if b &&& 0xF0 == 0xE0 then 3
  else if b &&& 0xF8 == 0xF0 then 4
  else 0

/-- Further bytes of a character. -/
def readBytes : Nat → Cursor → Except Flaw (List UInt8 × Cursor)
  | 0, c => .ok ([], c)
  | n + 1, c =>
    match readByte? c with
    | none => .error .noEscapedByte
    | some (b, c) =>
      if b &&& 0xC0 != 0x80 then .error .incorrectTrailingByte
      else do
        let (more, c) ← readBytes n c
        return (b :: more, c)

/-- A character written as escaped bytes. -/
def readEscaped (c : Cursor) : Except Flaw (List Char × Cursor) :=
  match readByte? c with
  | none => .error .noEscapedByte
  | some (b, c) =>
    if byteCount b = 0 then .error .incorrectLeadingByte
    else do
      let (more, c) ← readBytes (byteCount b - 1) c
      match String.fromUTF8? ⟨(b :: more).toArray⟩ with
      | some s => return (s.toList, c)
      | none => throw .invalidBytes

/-- Reads characters of a tag; `read` holds those read so far, last first. -/
def readTagChars (bracketed : Bool) :
    Nat → (read : List Char) → Cursor → Except Flaw (List Char × Cursor)
  | 0, read, c => .ok (read.reverse, c)
  | fuel + 1, read, c =>
    match c.head? with
    | some '%' => do
      let (chars, c) ← readEscaped c
      readTagChars bracketed fuel (chars.reverse ++ read) c
    | some ch =>
      if isTagChar bracketed ch then readTagChars bracketed fuel (ch :: read) c.next
      else .ok (read.reverse, c)
    | none => .ok (read.reverse, c)

/-- Reads characters of a tag, of which there must be some unless others stand before them. -/
def readTagText (bracketed : Bool) (before : Nat) (c : Cursor) :
    Except Flaw (List Char × Cursor) := do
  let (chars, rest) ← readTagChars bracketed (c.rest.length + 1) [] c
  if before = 0 ∧ rest.index = c.index then throw .noTagText
  return (chars, rest)

/-- Reads a handle: an exclamation mark, and perhaps a name and another mark. -/
def readHandle (c : Cursor) : Except Flaw (List Char × Cursor) :=
  if c.starts '!' then
    let (name, c) := c.next.span isNameChar
    if c.starts '!' then .ok ('!' :: name ++ ['!'], c.next) else .ok ('!' :: name, c)
  else .error .noTagMark

/-- Whether a handle is closed by a second mark. -/
def isClosed (handle : List Char) : Bool := 1 < handle.length && handle.getLast? == some '!'

/-- Reads a tag as its handle and its suffix; a tag written whole has no handle. -/
def readTag (inFlow : Bool) (c : Cursor) : Except Flaw ((String × String) × Cursor) := do
  let (tag, c) ←
    if c.peek? 1 == some '<' then do
      let (text, c) ← readTagText true 0 (c.skip 2)
      if !c.starts '>' then throw .unclosedTag
      pure (("", String.ofList text), c.next)
    else do
      let (handle, c) ← readHandle c
      if isClosed handle then do
        let (text, c) ← readTagText false 0 c
        pure ((String.ofList handle, String.ofList text), c)
      else do
        let (text, c) ← readTagText false handle.length c
        let suffix := handle.drop 1 ++ text
        pure (if suffix.isEmpty then ("", "!") else ("!", String.ofList suffix), c)
  if !c.atGap && !(inFlow && c.starts ',') then throw .noGap
  return (tag, c)

/-- Reads a number of a version. -/
def readVersionNumber (c : Cursor) : Except Flaw (Nat × Cursor) :=
  let (digits, c) := c.span Char.isDigit
  if digits.isEmpty then .error .noVersionNumber
  else if 9 < digits.length then .error .longVersionNumber
  else .ok (digits.foldl (fun n d => 10 * n + (d.toNat - 48)) 0, c)

/-- Reads a version. -/
def readVersion (c : Cursor) : Except Flaw (Directive × Cursor) := do
  let (major, c) ← readVersionNumber (c.dropWhile isBlank)
  if !c.starts '.' then throw .noVersionPoint
  let (minor, c) ← readVersionNumber c.next
  return (.version major minor, c)

/-- Reads what a handle stands for. -/
def readHandleDirective (c : Cursor) : Except Flaw (Directive × Cursor) := do
  let (handle, c) ← readHandle (c.dropWhile isBlank)
  if handle ≠ ['!'] ∧ !isClosed handle then throw .noTagMark
  if !c.atBlank then throw .noBlank
  let (start, c) ← readTagText true 0 (c.dropWhile isBlank)
  if !c.atGap then throw .noGap
  return (.handle (String.ofList handle) (String.ofList start), c)

/-- Reads a directive after its percent sign, up to the next line. -/
def readDirective (c : Cursor) : Except Flaw (Directive × Cursor) := do
  let (name, c) := c.span isNameChar
  if name.isEmpty then throw .noDirectiveName
  if !c.atGap then throw .badDirectiveName
  let (directive, c) ←
    match String.ofList name with
    | "YAML" => readVersion c
    | "TAG" => readHandleDirective c
    | _ => throw .unknownDirective
  return (directive, ← c.endLine)

/-- Reads the name of an anchor after its mark. -/
def readAnchor (c : Cursor) : Except Flaw (String × Cursor) :=
  let (name, c) := c.span isNameChar
  let bounded := c.atGap ||
    c.head?.any fun ch => ch ∈ ['?', ':', ',', ']', '}', '%', '@', '\x60']
  if name.isEmpty || !bounded then .error .badAnchor
  else .ok (String.ofList name, c)

end WorkflowEngine.Yaml
