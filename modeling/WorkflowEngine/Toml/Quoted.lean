import WorkflowEngine.Text.Blank

/-!
# Quoted texts of settings files

A text in TOML stands between quotes, in which a backslash begins an escape, or between apostrophes,
in which everything stands for itself; three of either kind enclose a text over several lines. A
line end directly after the opening three does not count, and a backslash at the end of a line takes
the blanks and the line ends that follow out of the text.

The readers begin after the opening mark and give the rest after the closing one.
-/

namespace WorkflowEngine.Toml

/-- Whether a character is a blank within a line. -/
def isLineBlank (c : Char) : Bool := c == ' ' || c == '\t'

/-- Skips blanks within a line. -/
def skipBlanks (cs : List Char) : List Char := cs.dropWhile isLineBlank

/-- The rest after the end of a line. -/
def afterLine? : List Char → Option (List Char)
  | '\n' :: rest => some rest
  | '\r' :: '\n' :: rest => some rest
  | _ => none

/-- Whether a character may stand in a comment or for itself in a text. -/
def isPlain (c : Char) : Bool := c == '\t' || (0x20 ≤ c.toNat && c.toNat != 0x7F)

/-- Puts a character in front of a text that was read. -/
def push (c : Char) : Option (List Char × List Char) → Option (List Char × List Char) :=
  Option.map fun r => (c :: r.1, r.2)

/-! ## Escapes -/

/-- The character of a letter after a backslash. -/
def unescape? (c : Char) : Option Char :=
  match c with
  | 'b' => some '\x08'
  | 't' => some '\t'
  | 'n' => some '\n'
  | 'f' => some '\x0c'
  | 'r' => some '\r'
  | '"' => some '"'
  | '\\' => some '\\'
  | _ => none

/-- The value of a hexadecimal digit. -/
def hexValue? (c : Char) : Option Nat :=
  if c.isDigit then some (c.toNat - 48)
  else if 'a' ≤ c ∧ c ≤ 'f' then some (c.toNat - 87)
  else if 'A' ≤ c ∧ c ≤ 'F' then some (c.toNat - 55)
  else none

/-- The character whose number is given in hexadecimal digits. -/
def scalar? (digits : List Char) : Option Char :=
  (digits.foldlM (fun n c => (hexValue? c).map (16 * n + ·)) 0).bind fun n =>
    if n.isValidChar then some (Char.ofNat n) else none

/-- The character of an escape after its backslash, and the rest. -/
def escaped? : List Char → Option (Char × List Char)
  | 'u' :: rest => if 4 ≤ rest.length then (scalar? (rest.take 4)).map (·, rest.drop 4) else none
  | 'U' :: rest => if 8 ≤ rest.length then (scalar? (rest.take 8)).map (·, rest.drop 8) else none
  | c :: rest => (unescape? c).map (·, rest)
  | [] => none

/-- An escape takes at least one character. -/
theorem length_lt_of_escaped? {cs rest : List Char} {c : Char} (h : escaped? cs = some (c, rest)) :
    rest.length < cs.length := by
  unfold escaped? at h
  split at h
  · split at h
    · obtain ⟨d, -, hd⟩ := Option.map_eq_some_iff.1 h
      obtain ⟨-, rfl⟩ := Prod.mk.injEq .. ▸ hd
      rw [List.length_drop, List.length_cons]
      omega
    · simp at h
  · split at h
    · obtain ⟨d, -, hd⟩ := Option.map_eq_some_iff.1 h
      obtain ⟨-, rfl⟩ := Prod.mk.injEq .. ▸ hd
      rw [List.length_drop, List.length_cons]
      omega
    · simp at h
  · obtain ⟨d, -, hd⟩ := Option.map_eq_some_iff.1 h
    obtain ⟨-, rfl⟩ := Prod.mk.injEq .. ▸ hd
    simp
  · simp at h

/-! ## Texts in one line -/

/-- Reads a text up to its quote. -/
def readText : List Char → Option (List Char × List Char)
  | [] => none
  | c :: rest =>
    if c = '"' then some ([], rest)
    else if c = '\\' then
      match h : escaped? rest with
      | some (e, more) =>
        have := length_lt_of_escaped? h
        push e (readText more)
      | none => none
    else if isPlain c then push c (readText rest)
    else none
termination_by cs => cs.length

/-- Reads a text up to its apostrophe. -/
def readLiteral (cs : List Char) : Option (List Char × List Char) :=
  let (text, rest) := cs.span fun c => c != '\'' && isPlain c
  match rest with
  | '\'' :: rest => some (text, rest)
  | _ => none

/-! ## Texts over several lines -/

/-- What a run of closing marks ends: up to two marks more than three belong to the text. -/
def closing? (mark : Char) (cs : List Char) : Option (List Char × List Char) :=
  match (cs.takeWhile (· == mark)).length with
  | 0 | 1 | 2 => none
  | 3 => some ([], cs.drop 3)
  | 4 => some ([mark], cs.drop 4)
  | _ => some ([mark, mark], cs.drop 5)

/-- Reads a text over several lines up to its quotes; `folding` says whether blanks and line ends
are being taken out. -/
def readLongText (folding : Bool) : List Char → Option (List Char × List Char)
  | [] => none
  | c :: rest =>
    if isLineBlank c then
      if folding then readLongText true rest else push c (readLongText false rest)
    else if c = '\n' then
      if folding then readLongText true rest else push c (readLongText false rest)
    else if c = '\r' then
      if rest.head? = some '\n' then readLongText folding rest else none
    else if c = '"' then
      match closing? '"' (c :: rest) with
      | some r => some r
      | none => push c (readLongText false rest)
    else if c = '\\' then
      match h : escaped? rest with
      | some (e, more) =>
        have := length_lt_of_escaped? h
        push e (readLongText false more)
      | none => if (afterLine? (skipBlanks rest)).isSome then readLongText true rest else none
    else if isPlain c then push c (readLongText false rest)
    else none
termination_by cs => cs.length

/-- Reads a text over several lines up to its apostrophes. -/
def readLongLiteral : List Char → Option (List Char × List Char)
  | [] => none
  | c :: rest =>
    if c = '\'' then
      match closing? '\'' (c :: rest) with
      | some r => some r
      | none => push c (readLongLiteral rest)
    else if c = '\r' then
      if rest.head? = some '\n' then readLongLiteral rest else none
    else if c = '\n' || isPlain c then push c (readLongLiteral rest)
    else none

/-- The text after the opening marks of a text over several lines. -/
def dropFirstLineEnd (cs : List Char) : List Char := (afterLine? cs).getD cs

end WorkflowEngine.Toml
