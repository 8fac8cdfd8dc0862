import WorkflowEngine.Json.Basic

/-!
# Reading JSON texts

A text is first read into a syntax tree that keeps what only a later use can judge: members in their
order with repetitions, numbers beyond the finite range, and texts with surrogate halves that do not
pair. A part of a document that is passed over may contain all of these. A value is formed from the
tree under a limit on nesting; of members of one name the last counts.
-/

namespace WorkflowEngine.Json

/-- A JSON text as written. -/
inductive Syntax where
  /-- The word `null`. -/
  | null
  /-- A truth value. -/
  | boolean (value : Bool)
  /-- A number; nothing if it lies beyond the finite range. -/
  | number (value : Option Number)
  /-- A text; nothing if it has surrogate halves that do not pair. -/
  | string (value : Option String)
  /-- A list. -/
  | array (items : List Syntax)
  /-- Members in their order, repetitions included. -/
  | object (members : List (Option String × Syntax))
  deriving Inhabited

namespace Syntax

/-! ## Words -/

/-- Blanks between words. -/
def isBlank (c : Char) : Bool := c == ' ' || c == '\n' || c == '\t' || c == '\r'

/-- Drops blanks in front. -/
def skipBlanks (cs : List Char) : List Char := cs.dropWhile isBlank

/-- The value of a hexadecimal digit. -/
def hexValue? (c : Char) : Option Nat :=
  if '0' ≤ c ∧ c ≤ '9' then some (c.toNat - 48)
  else if 'a' ≤ c ∧ c ≤ 'f' then some (c.toNat - 87)
  else if 'A' ≤ c ∧ c ≤ 'F' then some (c.toNat - 55)
  else none

/-- The 16-bit unit of four hexadecimal digits. -/
def unit? (a b c d : Char) : Option Nat := do
  return (((← hexValue? a) * 16 + (← hexValue? b)) * 16 + (← hexValue? c)) * 16 + (← hexValue? d)

/-- Whether a 16-bit unit is the first half of a pair. -/
def isHighHalf (n : Nat) : Bool := 0xD800 ≤ n && n ≤ 0xDBFF

/-- Whether a 16-bit unit is the second half of a pair. -/
def isLowHalf (n : Nat) : Bool := 0xDC00 ≤ n && n ≤ 0xDFFF

/-- The character of a pair of halves. -/
def pairChar (high low : Nat) : Char :=
  Char.ofNat (0x10000 + (high - 0xD800) * 0x400 + (low - 0xDC00))

/-- The character that a one-letter escape stands for. -/
def escaped? (c : Char) : Option Char :=
  match c with
  | '"' => some '"'
  | '\\' => some '\\'
  | '/' => some '/'
  | 'b' => some '\x08'
  | 'f' => some '\x0c'
  | 'n' => some '\n'
  | 'r' => some '\r'
  | 't' => some '\t'
  | _ => none

/-- What has been read of a text: its characters, last first, unless a surrogate half stood alone,
and a first half that waits for its second. -/
structure Progress where
  /-- The characters, last first. -/
  read : Option (List Char)
  /-- A first half not yet paired. -/
  high : Option Nat

namespace Progress

/-- Nothing read yet. -/
def start : Progress := ⟨some [], none⟩

/-- The characters read, if no half is left over. -/
def settled (p : Progress) : Option (List Char) := if p.high.isSome then none else p.read

/-- Adds a character. -/
def push (p : Progress) (c : Char) : Progress := ⟨p.settled.map (c :: ·), none⟩

/-- Adds a 16-bit unit. -/
def pushUnit (p : Progress) (n : Nat) : Progress :=
  if isLowHalf n then
    match p.high with
    | some high => ⟨p.read.map (pairChar high n :: ·), none⟩
    | none => ⟨none, none⟩
  else if isHighHalf n then ⟨p.settled, some n⟩
  else p.push (Char.ofNat n)

end Progress

/-- Reads a text up to its closing quote, and gives the rest. -/
def readQuoted (p : Progress) : List Char → Option (Option String × List Char)
  | [] => none
  | '"' :: rest => some (p.settled.map fun cs => String.ofList cs.reverse, rest)
  | '\\' :: 'u' :: a :: b :: c :: d :: rest =>
    match unit? a b c d with
    | some n => readQuoted (p.pushUnit n) rest
    | none => none
  | '\\' :: c :: rest =>
    match escaped? c with
    | some e => readQuoted (p.push e) rest
    | none => none
  | c :: rest => if c.toNat < 0x20 then none else readQuoted (p.push c) rest

/-- Splits leading digits off. -/
def spanDigits (cs : List Char) : List Char × List Char := cs.span Char.isDigit

/-- Reads the digits of an exponent after its letter. -/
def readExponent (cs : List Char) : Option ((Bool × List Char) × List Char) :=
  let (negative, cs) := match cs with
    | '-' :: r => (true, r)
    | '+' :: r => (false, r)
    | r => (false, r)
  match spanDigits cs with
  | ([], _) => none
  | (digits, rest) => some ((negative, digits), rest)

/-- Reads a fraction and an exponent, each if present. -/
def readTail (negative : Bool) (whole : List Char) (cs : List Char) :
    Option (Number.Lexeme × List Char) := do
  let (fraction, cs) ← match cs with
    | '.' :: r =>
      match spanDigits r with
      | ([], _) => none
      | (digits, rest) => some (some digits, rest)
    | r => some (none, r)
  match cs with
  | 'e' :: r | 'E' :: r =>
    let (exponent, rest) ← readExponent r
    return (⟨negative, whole, fraction, some exponent⟩, rest)
  | r => return (⟨negative, whole, fraction, none⟩, r)

/-- Reads a number: no leading zeros, no leading plus, digits on both sides of a point. -/
def readNumber (cs : List Char) : Option (Number.Lexeme × List Char) :=
  let (negative, cs) := match cs with
    | '-' :: r => (true, r)
    | r => (false, r)
  match spanDigits cs with
  | ([], _) => none
  | ('0' :: _ :: _, _) => none
  | (whole, rest) => readTail negative whole rest

/-! ## Values -/

mutual

/-- Reads a value and gives the rest of the text. -/
def readValue : Nat → List Char → Option (Syntax × List Char)
  | 0, _ => none
  | fuel + 1, cs =>
    match skipBlanks cs with
    | 'n' :: 'u' :: 'l' :: 'l' :: rest => some (.null, rest)
    | 't' :: 'r' :: 'u' :: 'e' :: rest => some (.boolean true, rest)
    | 'f' :: 'a' :: 'l' :: 's' :: 'e' :: rest => some (.boolean false, rest)
    | '"' :: rest => (readQuoted .start rest).map fun (s, r) => (.string s, r)
    | '[' :: rest =>
      match skipBlanks rest with
      | ']' :: rest => some (.array [], rest)
      | rest => (readItems fuel rest).map fun (items, r) => (.array items, r)
    | '{' :: rest =>
      match skipBlanks rest with
      | '}' :: rest => some (.object [], rest)
      | rest => (readMembers fuel rest).map fun (members, r) => (.object members, r)
    | rest => (readNumber rest).map fun (lexeme, r) => (.number (Number.ofLexeme lexeme), r)

/-- Reads the items of a list up to its closing bracket. -/
def readItems : Nat → List Char → Option (List Syntax × List Char)
  | 0, _ => none
  | fuel + 1, cs =>
    match readValue fuel cs with
    | none => none
    | some (item, rest) =>
      match skipBlanks rest with
      | ',' :: rest => (readItems fuel rest).map fun (items, r) => (item :: items, r)
      | ']' :: rest => some ([item], rest)
      | _ => none

/-- Reads the members of an object up to its closing brace. -/
def readMembers : Nat → List Char → Option (List (Option String × Syntax) × List Char)
  | 0, _ => none
  | fuel + 1, cs =>
    match skipBlanks cs with
    | '"' :: rest =>
      match readQuoted .start rest with
      | none => none
      | some (name, rest) =>
        match skipBlanks rest with
        | ':' :: rest =>
          match readValue fuel rest with
          | none => none
          | some (v, rest) =>
            match skipBlanks rest with
            | ',' :: rest =>
              (readMembers fuel rest).map fun (members, r) => ((name, v) :: members, r)
            | '}' :: rest => some ([(name, v)], rest)
            | _ => none
        | _ => none
    | _ => none

end

/-- Reads a whole text, with blanks at both ends. -/
def ofText? (text : String) : Option Syntax :=
  let cs := text.toList
  match readValue (2 * cs.length + 2) cs with
  | some (v, rest) => if (skipBlanks rest).isEmpty then some v else none
  | none => none

mutual

/-- The value of a syntax tree whose lists and objects nest at most `depth` deep. -/
def toJson? (depth : Nat) : Syntax → Option Json
  | .null => some .null
  | .boolean b => some (.boolean b)
  | .number n => n.map .number
  | .string s => s.map .string
  | .array items =>
    match depth with
    | 0 => none
    | depth + 1 => (toItems? depth items).map .array
  | .object members =>
    match depth with
    | 0 => none
    | depth + 1 => (toMembers? depth members).map Json.ofMembers

/-- The values of a list's items. -/
def toItems? (depth : Nat) : List Syntax → Option (List Json)
  | [] => some []
  | v :: rest =>
    match toJson? depth v, toItems? depth rest with
    | some v, some rest => some (v :: rest)
    | _, _ => none

/-- The values of an object's members. -/
def toMembers? (depth : Nat) : List (Option String × Syntax) → Option (List (String × Json))
  | [] => some []
  | (name, v) :: rest =>
    match name, toJson? depth v, toMembers? depth rest with
    | some name, some v, some rest => some ((name, v) :: rest)
    | _, _, _ => none

end

end Syntax

/-- Lists and objects may nest at most this deep in a text. -/
def depthLimit : Nat := 127

/-- The value of a text, if the text is well formed and nests within the limit. -/
def ofText? (text : String) : Option Json :=
  (Syntax.ofText? text).bind (Syntax.toJson? depthLimit)

end WorkflowEngine.Json
