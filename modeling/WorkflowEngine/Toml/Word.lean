import WorkflowEngine.Toml.Table

/-!
# Words of settings files

What stands without quotes in a TOML text: truth values, numbers, dates and times. Underscores may
separate the digits of a number, a number has no leading zeros, and an integer may also be given in
one of three other bases.
-/

namespace WorkflowEngine.Toml

open Number Text

/-- Whether a character may stand in a word. -/
def isWordChar (c : Char) : Bool := c.isAlphanum || c ∈ ['_', '+', '-', '.', ':']

/-! ## Numbers -/

/-- Digits that single underscores may separate, less the underscores. -/
def digits? (isDigit : Char → Bool) : List Char → Option (List Char)
  | [] => none
  | [c] => if isDigit c then some [c] else none
  | c :: '_' :: rest => if isDigit c then (digits? isDigit rest).map (c :: ·) else none
  | c :: rest => if isDigit c then (digits? isDigit rest).map (c :: ·) else none

/-- Digits of a number without leading zeros. -/
def whole? (cs : List Char) : Option (List Char) :=
  match digits? Char.isDigit cs with
  | some ['0'] => some ['0']
  | some ('0' :: _) => none
  | r => r

/-- Splits a sign off; the sign is whether it is a minus. -/
def splitSign : List Char → Bool × List Char
  | '-' :: rest => (true, rest)
  | '+' :: rest => (false, rest)
  | rest => (false, rest)

/-- An integer, if 64 bits hold it. -/
def inRange? (n : Int) : Option Node :=
  if Int64.minValue.toInt ≤ n ∧ n ≤ Int64.maxValue.toInt then some (.integer n) else none

/-- The value of a digit of any base up to sixteen. -/
def baseDigit (c : Char) : Nat :=
  if c.isDigit then c.toNat - 48 else if 'a' ≤ c then c.toNat - 87 else c.toNat - 55

/-- Whether a character is a digit of a base up to sixteen. -/
def isBaseDigit (base : Nat) (c : Char) : Bool :=
  (c.isDigit || ('a' ≤ c && c ≤ 'f') || ('A' ≤ c && c ≤ 'F')) && baseDigit c < base

/-- An integer of another base, by its digits. -/
def inBase? (base : Nat) (cs : List Char) : Option Node :=
  (digits? (isBaseDigit base) cs).bind fun ds =>
    inRange? (Int.ofNat (ds.foldl (fun n c => base * n + baseDigit c) 0))

/-- A decimal integer. -/
def decimal? (cs : List Char) : Option Node :=
  let (negative, cs) := splitSign cs
  (whole? cs).bind fun ds =>
    let n := Int.ofNat (natOfDigits ds)
    inRange? (if negative then -n else n)

/-- An exponent after its letter, less the underscores; nothing if there is none. -/
def exponent? : List Char → Option (List Char)
  | [] => some []
  | _ :: rest =>
    let (negative, cs) := splitSign rest
    (digits? Char.isDigit cs).map fun ds => 'e' :: if negative then '-' :: ds else ds

/-- Whether a character begins an exponent. -/
def isExponentMark (c : Char) : Bool := c == 'e' || c == 'E'

/-- The digits of a number with a point or an exponent, less the underscores. -/
def fractionText? (cs : List Char) : Option (List Char) := do
  let (whole, rest) := cs.span fun c => c != '.' && !isExponentMark c
  let whole ← whole? whole
  match rest with
  | '.' :: rest =>
    let (part, rest) := rest.span fun c => !isExponentMark c
    let part ← digits? Char.isDigit part
    return whole ++ '.' :: part ++ (← exponent? rest)
  | [] => none
  | rest => return whole ++ (← exponent? rest)

/-- A floating point number. A positive one has to be finite, a negative one that is too large is
infinite. -/
def fraction? (cs : List Char) : Option Node :=
  let (negative, cs) := splitSign cs
  match cs with
  | ['i', 'n', 'f'] => some (.floating (.infinite negative))
  | ['n', 'a', 'n'] => some (.floating (.undefined negative))
  | cs => do
    let digits ← fractionText? cs
    match ← double.read? (if negative then '-' :: digits else digits) with
    | .infinite false => none
    | x => return .floating x

/-! ## Dates and times -/

/-- A number of exactly two digits between bounds. -/
def twoDigits? (least greatest : Nat) : List Char → Option Nat
  | [a, b] =>
    if a.isDigit && b.isDigit then
      let n := natOfDigits [a, b]
      if least ≤ n ∧ n ≤ greatest then some n else none
    else none
  | _ => none

/-- Number of days of a month. -/
def daysOf (year month : Nat) : Nat :=
  match month with
  | 2 => if year % 4 = 0 ∧ (year % 100 ≠ 0 ∨ year % 400 = 0) then 29 else 28
  | 4 | 6 | 9 | 11 => 30
  | _ => 31

/-- Whether characters are a date that there is. -/
def isDate : List Char → Bool
  | [y₁, y₂, y₃, y₄, '-', m₁, m₂, '-', d₁, d₂] =>
    match readDigits [y₁, y₂, y₃, y₄], twoDigits? 1 12 [m₁, m₂] with
    | some year, some month => (twoDigits? 1 (daysOf year month) [d₁, d₂]).isSome
    | _, _ => false
  | _ => false

/-- What follows a time of day: hours, minutes, seconds, and a fraction of a second if a point
follows. -/
def afterTime? : List Char → Option (List Char)
  | h₁ :: h₂ :: ':' :: m₁ :: m₂ :: ':' :: s₁ :: s₂ :: rest => do
    let _ ← twoDigits? 0 23 [h₁, h₂]
    let _ ← twoDigits? 0 59 [m₁, m₂]
    let _ ← twoDigits? 0 60 [s₁, s₂]
    match rest with
    | '.' :: rest =>
      let (digits, rest) := rest.span Char.isDigit
      if digits.isEmpty then none else return rest
    | rest => return rest
  | _ => none

/-- Whether characters are the distance of a place's time from the common time, or nothing. -/
def isOffset : List Char → Bool
  | [] | ['Z'] | ['z'] => true
  | [sign, h₁, h₂, ':', m₁, m₂] =>
    (sign == '+' || sign == '-') && (twoDigits? 0 23 [h₁, h₂]).isSome &&
      (twoDigits? 0 59 [m₁, m₂]).isSome
  | _ => false

/-- Whether characters are a time of day, with a distance from the common time if it is present. -/
def isZonedTime (cs : List Char) : Bool := (afterTime? cs).any isOffset

/-- Whether characters are a date, a time of day, or a date, the letter for time and a time. -/
def isMoment (cs : List Char) : Bool :=
  isDate cs || afterTime? cs == some [] ||
    match cs.drop 10 with
    | mark :: time => isDate (cs.take 10) && (mark == 'T' || mark == 't') && isZonedTime time
    | [] => false

/-! ## Words -/

/-- The value of a word. -/
def ofWord? (cs : List Char) : Option Node :=
  match cs with
  | ['t', 'r', 'u', 'e'] => some (.boolean true)
  | ['f', 'a', 'l', 's', 'e'] => some (.boolean false)
  | '0' :: 'x' :: digits => inBase? 16 digits
  | '0' :: 'o' :: digits => inBase? 8 digits
  | '0' :: 'b' :: digits => inBase? 2 digits
  | cs =>
    if isMoment cs then some (.moment (String.ofList cs)) else (fraction? cs).or (decimal? cs)

/-- Reads a word. A date may be followed by a blank and a time of day. -/
def readWord (cs : List Char) : Option (Node × List Char) :=
  let (word, rest) := cs.span isWordChar
  match rest with
  | ' ' :: c :: more =>
    if isDate word && c.isDigit then
      let (time, rest) := (c :: more).span isWordChar
      if isZonedTime time then some (.moment (String.ofList (word ++ ' ' :: time)), rest) else none
    else (ofWord? word).map fun v => (v, rest)
  | rest => (ofWord? word).map fun v => (v, rest)

end WorkflowEngine.Toml
