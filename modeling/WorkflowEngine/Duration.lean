import WorkflowEngine.Text.Blank

/-!
# Spans of time

A span is a whole number of nanoseconds. Its text uses the largest of the units second, millisecond,
microsecond and nanosecond that fits into the span at least once, with the fraction written out and
without zeros at its end.
-/

namespace WorkflowEngine

/-- A span of time. -/
structure Duration where
  /-- The span in nanoseconds. -/
  nanos : Nat
  deriving DecidableEq, Repr, Inhabited

namespace Duration

/-- A span of whole seconds. -/
def ofSeconds (n : Nat) : Duration := ⟨n * Nat.pow 10 9⟩

/-- A span of whole milliseconds. -/
def ofMillis (n : Nat) : Duration := ⟨n * Nat.pow 10 6⟩

/-- `n` as a fraction of `places` digits with its point, less the zeros at the end. -/
def fractionText (places n : Nat) : List Char :=
  let digits := Nat.toDigits 10 n
  let padded := List.replicate (places - digits.length) '0' ++ digits
  match Text.dropEndWhile (· == '0') padded with
  | [] => []
  | shown => '.' :: shown

/-- A span in a unit of `10 ^ places` nanoseconds. -/
def inUnit (places : Nat) (unit : String) (d : Duration) : String :=
  let whole := Nat.toDigits 10 (d.nanos / Nat.pow 10 places)
  String.ofList (whole ++ fractionText places (d.nanos % Nat.pow 10 places)) ++ unit

/-- The text of a span. -/
def text (d : Duration) : String :=
  if Nat.pow 10 9 ≤ d.nanos then d.inUnit 9 "s"
  else if Nat.pow 10 6 ≤ d.nanos then d.inUnit 6 "ms"
  else if Nat.pow 10 3 ≤ d.nanos then d.inUnit 3 "µs"
  else d.inUnit 0 "ns"

example : (Duration.mk 1500000000).text = "1.5s" := by decide +kernel

example : (ofMillis 50).text = "50ms" := by decide +kernel

example : (Duration.mk 0).text = "0ns" := by decide +kernel

end Duration

end WorkflowEngine
