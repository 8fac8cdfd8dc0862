import WorkflowEngine.Proofs.Text.Integers
import Mathlib.Data.List.TakeWhile
import Mathlib.Data.Nat.Digits.Defs

/-!
# Texts that denote integers

A numeral is an optional sign and at least one ASCII digit, and denotes what its digits add up to by
their places. A text denotes an integer if there is nothing but white space around a numeral. The
texts that are read as integers of 64 bits are those that denote one in range.
-/

namespace WorkflowEngine.Text

/-! ## Numerals -/

/-- What digits add up to by their places, the last digit counting once. -/
def placeValue (ds : List Char) : Nat := Nat.ofDigits 10 (ds.map digitValue).reverse

/-- A numeral and the integer that it denotes. -/
inductive Numeral : List Char → Int → Prop
  /-- Digits without a sign. -/
  | digits {ds : List Char} (hne : ds ≠ []) (hall : ∀ d ∈ ds, d.isDigit = true) :
    Numeral ds (placeValue ds)
  /-- Digits after a plus. -/
  | plus {ds : List Char} (hne : ds ≠ []) (hall : ∀ d ∈ ds, d.isDigit = true) :
    Numeral ('+' :: ds) (placeValue ds)
  /-- Digits after a minus. -/
  | minus {ds : List Char} (hne : ds ≠ []) (hall : ∀ d ∈ ds, d.isDigit = true) :
    Numeral ('-' :: ds) (-placeValue ds)

/-- Reading digits from the front adds them up by their places. -/
theorem natOfDigits_eq_placeValue (ds : List Char) : natOfDigits ds = placeValue ds := by
  induction ds using List.reverseRecOn with
  | nil => rfl
  | append_singleton ds d ih =>
    rw [natOfDigits_append, ih]
    simp [placeValue, Nat.ofDigits_cons]
    omega

/-- Digits are read as their place value. -/
theorem readDigits_eq_some_iff {ds : List Char} {n : Nat} :
    readDigits ds = some n ↔ ds ≠ [] ∧ (∀ d ∈ ds, d.isDigit = true) ∧ placeValue ds = n := by
  simp [readDigits, natOfDigits_eq_placeValue, and_assoc]

/-- The characters that are read as an integer are the numerals, and the integer is what they
denote. -/
theorem readInt_eq_some_iff {cs : List Char} {n : Int} : readInt cs = some n ↔ Numeral cs n := by
  constructor
  · intro h
    unfold readInt at h
    split at h
    all_goals
      obtain ⟨m, hm, rfl⟩ := Option.map_eq_some_iff.1 h
      obtain ⟨hne, hall, rfl⟩ := readDigits_eq_some_iff.1 hm
    · exact .plus hne hall
    · exact .minus hne hall
    · exact .digits hne hall
  · intro h
    have hread {ds : List Char} (hne : ds ≠ []) (hall : ∀ d ∈ ds, d.isDigit = true) :
        readDigits ds = some (placeValue ds) := readDigits_eq_some_iff.2 ⟨hne, hall, rfl⟩
    cases h with
    | plus hne hall => simp [readInt, hread hne hall]
    | minus hne hall => simp [readInt, hread hne hall]
    | digits hne hall =>
      -- A digit is no sign, so that the digits are read as they stand.
      unfold readInt
      split
      · exact absurd (hall '+' List.mem_cons_self) (by decide)
      · exact absurd (hall '-' List.mem_cons_self) (by decide)
      · simp [hread hne hall]

theorem Numeral.ne_nil {cs : List Char} {n : Int} (h : Numeral cs n) : cs ≠ [] := by
  cases h with
  | digits hne _ => exact hne
  | plus | minus => exact List.cons_ne_nil _ _

/-- No character of a numeral is white space. -/
theorem Numeral.isBlank_eq_false {cs : List Char} {n : Int} (h : Numeral cs n) :
    ∀ c ∈ cs, isBlank c = false := by
  have hdigits {ds : List Char} (hall : ∀ d ∈ ds, d.isDigit = true) :
      ∀ d ∈ ds, isBlank d = false := fun d hd => isBlank_eq_false_of_isDigit (hall d hd)
  cases h with
  | digits _ hall => exact hdigits hall
  | plus _ hall => exact List.forall_mem_cons.2 ⟨by decide, hdigits hall⟩
  | minus _ hall => exact List.forall_mem_cons.2 ⟨by decide, hdigits hall⟩

/-! ## White space around a numeral -/

theorem dropEndWhile_append {α : Type} {p : α → Bool} {after : List α} (h : ∀ a ∈ after, p a = true)
    (xs : List α) : dropEndWhile p (xs ++ after) = dropEndWhile p xs := by
  unfold dropEndWhile
  rw [List.reverse_append, List.dropWhile_append_of_pos]
  simpa using h

/-- Behind what is dropped at the end there is only what is to be dropped. -/
theorem exists_dropEndWhile_append {α : Type} (p : α → Bool) (xs : List α) :
    ∃ after, xs = dropEndWhile p xs ++ after ∧ ∀ a ∈ after, p a = true := by
  refine ⟨(xs.reverse.takeWhile p).reverse, ?_, ?_⟩
  · rw [dropEndWhile, ← List.reverse_append, List.takeWhile_append_dropWhile, List.reverse_reverse]
  · intro a ha
    exact List.mem_takeWhile_imp (List.mem_reverse.1 ha)

/-- White space is all that stands around what is left of a text. -/
theorem exists_trimChars_between (cs : List Char) :
    ∃ before after, cs = before ++ (trimChars cs ++ after) ∧ (∀ c ∈ before, isBlank c = true) ∧
      ∀ c ∈ after, isBlank c = true := by
  obtain ⟨after, hafter, hblank⟩ := exists_dropEndWhile_append isBlank (cs.dropWhile isBlank)
  refine ⟨cs.takeWhile isBlank, after, ?_, fun c hc => List.mem_takeWhile_imp hc, hblank⟩
  rw [trimChars, ← hafter, List.takeWhile_append_dropWhile]

/-- White space is dropped around characters that have none. -/
theorem trimChars_between {before cs after : List Char} (hne : cs ≠ [])
    (hcs : ∀ c ∈ cs, isBlank c = false) (hbefore : ∀ c ∈ before, isBlank c = true)
    (hafter : ∀ c ∈ after, isBlank c = true) : trimChars (before ++ (cs ++ after)) = cs := by
  have hfront (rest : List Char) : (cs ++ rest).dropWhile isBlank = cs ++ rest := by
    cases cs with
    | nil => exact absurd rfl hne
    | cons c cs => simp [hcs c List.mem_cons_self]
  have hself : trimChars cs = cs :=
    trimChars_eq_self (fun c hc => hcs c (List.mem_of_mem_head? hc))
      fun c hc => hcs c (List.mem_of_getLast? hc)
  rw [trimChars, List.dropWhile_append_of_pos hbefore, hfront, dropEndWhile_append hafter]
  rwa [trimChars, ← List.append_nil cs, hfront, List.append_nil] at hself

/-- A text denotes an integer if it is a numeral of this integer, with nothing but white space
around it. -/
def Denotes (s : String) (n : Int) : Prop :=
  ∃ before cs after, s.toList = before ++ (cs ++ after) ∧ (∀ c ∈ before, isBlank c = true) ∧
    (∀ c ∈ after, isBlank c = true) ∧ Numeral cs n

/-- A text denotes exactly what is read from it when blanks around it are dropped. -/
theorem denotes_iff {s : String} {n : Int} : Denotes s n ↔ readInt (trim s).toList = some n := by
  rw [trim, String.toList_ofList, readInt_eq_some_iff]
  constructor
  · rintro ⟨before, cs, after, hs, hbefore, hafter, h⟩
    rwa [hs, trimChars_between h.ne_nil h.isBlank_eq_false hbefore hafter]
  · intro h
    obtain ⟨before, after, hs, hbefore, hafter⟩ := exists_trimChars_between s.toList
    exact ⟨before, _, after, hs, hbefore, hafter, h⟩

/-- A text denotes at most one integer. -/
theorem Denotes.unique {s : String} {n n' : Int} (h : Denotes s n) (h' : Denotes s n') : n = n' :=
  Option.some.inj ((denotes_iff.1 h).symm.trans (denotes_iff.1 h'))

/-! ## Integers of 64 bits -/

/-- What is read between white space is what the text denotes, if it is in range. -/
theorem readInt64_trim_eq_some_iff {s : String} {i : Int64} :
    readInt64 (trim s) = some i ↔ Denotes s i.toInt := by
  have hmin : Int64.minValue.toInt = -2 ^ 63 := by decide
  have hmax : Int64.maxValue.toInt = 2 ^ 63 - 1 := by decide
  have hlow := i.minValue_le_toInt
  have hhigh := i.toInt_le
  rw [readInt64, denotes_iff, Option.bind_eq_some_iff]
  constructor
  · rintro ⟨n, hn, h⟩
    split at h
    · next hrange =>
      obtain rfl := Option.some.inj h
      rw [hn, Int64.toInt_ofInt_of_le] <;> omega
    · cases h
  · intro h
    exact ⟨i.toInt, h, by rw [if_pos ⟨hlow, hhigh⟩, Int64.ofInt_toInt]⟩

end WorkflowEngine.Text
