import WorkflowEngine.Text.LetterCase.Table

/-!
# Small and capital letters

A text is put into small or capital letters character by character. Some capital forms take several
characters, the capital dotted I has a small form of two, and a capital sigma that ends a word takes
the final form.
-/

namespace WorkflowEngine.Text.LetterCase

/-- Whether a character is a member of a run. -/
def Run.contains (r : Run) (n : Nat) : Bool :=
  r.first ≤ n && n ≤ r.last && (n - r.first) % r.step == 0

/-- The image of a character under the first run that contains it. -/
def shift (runs : List Run) (c : Char) : Char :=
  match runs.find? (·.contains c.toNat) with
  | some r => Char.ofNat (c.toNat + r.offset).toNat
  | none => c

/-- Whether a character lies in one of the closed intervals. -/
def within (intervals : List (Nat × Nat)) (c : Char) : Bool :=
  intervals.any fun i => i.1 ≤ c.toNat && c.toNat ≤ i.2

/-- Whether a text's first character that is not ignorable has letter case. -/
def leadsToCased (cs : List Char) : Bool :=
  match cs.dropWhile (within ignorableIntervals) with
  | c :: _ => within casedIntervals c
  | [] => false

/-- The capital form of a character. -/
def capital (c : Char) : List Char :=
  if c.toNat < 0x80 then [c.toUpper]
  else match longCapitals.find? (·.1 == c.toNat) with
    | some entry => entry.2.map Char.ofNat
    | none => [shift capitalRuns c]

/-- The small form of a character, other than a sigma's. -/
def small (c : Char) : List Char :=
  if c.toNat < 0x80 then [c.toLower]
  else if c.toNat == 0x130 then ['i', Char.ofNat 0x307]
  else [shift smallRuns c]

/-- The small form of a sigma between the text before it, read backwards, and the text after it. -/
def smallSigma (before after : List Char) : Char :=
  if leadsToCased before && !leadsToCased after then Char.ofNat 0x3C2 else Char.ofNat 0x3C3

/-- Small letters for the rest of a text, given what stands before it, read backwards. -/
def smallFrom (before : List Char) : List Char → List Char
  | [] => []
  | c :: rest =>
    (if c.toNat == 0x3A3 then [smallSigma before rest] else small c) ++ smallFrom (c :: before) rest

end LetterCase

/-- A text in capital letters. -/
def toCapitals (s : String) : String := String.ofList (s.toList.flatMap LetterCase.capital)

/-- A text in small letters. -/
def toSmall (s : String) : String := String.ofList (LetterCase.smallFrom [] s.toList)

end WorkflowEngine.Text
