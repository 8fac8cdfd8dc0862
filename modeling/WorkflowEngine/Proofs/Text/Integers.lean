import WorkflowEngine.Text.Blank
import WorkflowEngine.Text.Integer
import Mathlib.Data.List.Induction

/-!
# Decimal texts of integers

The decimal text of an integer is a minus or nothing and digits of which the first is no zero,
unless it is the only one. It has no blanks, and reading it gives the integer.
-/

namespace WorkflowEngine.Text

/-! ## Digits -/

/-- A number is read back from its digits. -/
theorem natOfDigits_toDigits (n : Nat) : natOfDigits (Nat.toDigits 10 n) = n := by
  have h := @Nat.ofDigitChars_ten_toDigits n
  rw [Nat.ofDigitChars_eq_foldl] at h
  exact h

theorem isDigit_of_mem_toDigits {n : Nat} {c : Char} (h : c ∈ Nat.toDigits 10 n) :
    c.isDigit = true :=
  Nat.isDigit_of_mem_toDigits (by decide) (Nat.le_refl 10) h

/-- Every number has a first digit. -/
theorem exists_toDigits_eq_cons (n : Nat) :
    ∃ c rest, Nat.toDigits 10 n = c :: rest ∧ c.isDigit = true := by
  obtain ⟨c, rest, h⟩ := List.exists_cons_of_ne_nil (@Nat.toDigits_ne_nil n 10)
  exact ⟨c, rest, h, isDigit_of_mem_toDigits (h ▸ List.mem_cons_self)⟩

/-- Only nought is written with a zero in front. -/
theorem eq_zero_of_toDigits {n : Nat} {rest : List Char} (h : Nat.toDigits 10 n = '0' :: rest) :
    n = 0 := by
  induction n using Nat.strongRecOn generalizing rest with
  | ind n ih =>
    by_cases hn : n < 10
    · have hzero : ∀ d < 10, d.digitChar = '0' → d = 0 := by decide
      rw [Nat.toDigits_of_lt_base hn] at h
      exact hzero n hn (List.cons.inj h).1
    · obtain ⟨c, tail, hfront, _⟩ := exists_toDigits_eq_cons (n / 10)
      rw [Nat.toDigits_of_base_le (by decide) (Nat.not_lt.1 hn), hfront] at h
      obtain rfl : c = '0' := (List.cons.inj h).1
      have hshort := ih (n / 10) (by omega) hfront
      omega

/-- So no zero stands in front of other digits. -/
theorem toDigits_ne_zero_cons_cons (n : Nat) (c : Char) (rest : List Char) :
    Nat.toDigits 10 n ≠ '0' :: c :: rest := by
  intro h
  rw [eq_zero_of_toDigits h, Nat.toDigits_zero] at h
  cases (List.cons.inj h).2

/-- A digit that is appended is worth one, and those before it ten times as much. -/
theorem natOfDigits_append (cs : List Char) (c : Char) :
    natOfDigits (cs ++ [c]) = 10 * natOfDigits cs + digitValue c := by
  rw [natOfDigits, List.foldl_append]
  rfl

/-- A digit is written for its value. -/
theorem toDigits_digitValue {c : Char} (h : c.isDigit = true) :
    digitValue c < 10 ∧ Nat.toDigits 10 (digitValue c) = [c] := by
  obtain ⟨hlow, hhigh⟩ : 48 ≤ c.toNat ∧ c.toNat ≤ 57 := by
    simpa [Char.isDigit, UInt32.le_iff_toNat_le] using h
  have hvalue : digitValue c < 10 := by
    rw [digitValue]
    omega
  have hchar : (digitValue c).digitChar = c := by
    apply Char.toNat_inj.1
    rw [Nat.toNat_digitChar_of_lt_ten hvalue, digitValue]
    omega
  exact ⟨hvalue, (Nat.toDigits_of_lt_base hvalue).trans (congrArg (fun d => [d]) hchar)⟩

/-- Digits without a zero in front, unless it is the only one, are written for what they denote. -/
theorem toDigits_natOfDigits {c : Char} {cs : List Char} (hall : ∀ d ∈ c :: cs, d.isDigit = true)
    (hzero : c = '0' → cs = []) : Nat.toDigits 10 (natOfDigits (c :: cs)) = c :: cs := by
  induction cs using List.reverseRecOn with
  | nil =>
    have hvalue : natOfDigits [c] = digitValue c := by simp [natOfDigits]
    rw [hvalue]
    exact (toDigits_digitValue (hall c List.mem_cons_self)).2
  | append_singleton cs d ih =>
    have hfront : c ≠ '0' := fun h => List.concat_ne_nil d cs (hzero h)
    have hcs := ih (fun e he => hall e (List.mem_append_left [d] he)) fun h => absurd h hfront
    obtain ⟨hd, hdigit⟩ := toDigits_digitValue (hall d (List.mem_append_right (c :: cs) (by simp)))
    have hpos : 0 < natOfDigits (c :: cs) := by
      rw [Nat.pos_iff_ne_zero]
      intro h
      rw [h, Nat.toDigits_zero] at hcs
      exact hfront (List.cons.inj hcs).1.symm
    rw [← List.cons_append, natOfDigits_append, ← Nat.toDigits_append_toDigits (by decide) hpos hd,
      hcs, hdigit]

theorem readDigits_toDigits (n : Nat) : readDigits (Nat.toDigits 10 n) = some n := by
  have hall : (Nat.toDigits 10 n).all Char.isDigit = true :=
    List.all_eq_true.2 fun c hc => isDigit_of_mem_toDigits hc
  have hsome : (Nat.toDigits 10 n).isEmpty = false :=
    List.isEmpty_eq_false_iff.2 Nat.toDigits_ne_nil
  rw [readDigits, hall, hsome, natOfDigits_toDigits]
  rfl

/-! ## Integers -/

theorem ofInt_of_nonneg {n : Int} (h : 0 ≤ n) : ofInt n = Nat.toDigits 10 n.natAbs :=
  if_neg (Int.not_lt.2 h)

theorem ofInt_of_neg {n : Int} (h : n < 0) : ofInt n = '-' :: Nat.toDigits 10 n.natAbs := if_pos h

theorem ofInt_ne_nil (n : Int) : ofInt n ≠ [] := by
  unfold ofInt
  split
  · exact List.cons_ne_nil _ _
  · exact Nat.toDigits_ne_nil

/-- A decimal text consists of a minus and digits. -/
theorem eq_or_isDigit_of_mem_ofInt {n : Int} {c : Char} (h : c ∈ ofInt n) :
    c = '-' ∨ c.isDigit = true := by
  unfold ofInt at h
  split at h
  · rcases List.mem_cons.1 h with rfl | h
    · exact .inl rfl
    · exact .inr (isDigit_of_mem_toDigits h)
  · exact .inr (isDigit_of_mem_toDigits h)

/-- An integer is read back from what is written for it. -/
theorem readInt_ofInt (n : Int) : readInt (ofInt n) = some n := by
  rcases Int.lt_or_le n 0 with hn | hn
  · rw [ofInt_of_neg hn, readInt, readDigits_toDigits, Option.map_some, Int.ofNat_eq_natCast]
    exact congrArg some (by omega)
  · obtain ⟨c, rest, hdigits, hc⟩ := exists_toDigits_eq_cons n.natAbs
    have hread : (readDigits (Nat.toDigits 10 n.natAbs)).map Int.ofNat = some n := by
      rw [readDigits_toDigits, Option.map_some]
      exact congrArg some (Int.natAbs_of_nonneg hn)
    rw [ofInt_of_nonneg hn, hdigits, readInt, ← hdigits]
    · exact hread
    · rintro _ ⟨⟩
      exact absurd hc (by decide)
    · rintro _ ⟨⟩
      exact absurd hc (by decide)

/-- An integer of 64 bits is read from its decimal text. -/
theorem readInt64_ofInt (i : Int64) : readInt64 (String.ofList (ofInt i.toInt)) = some i := by
  have hrange : Int64.minValue.toInt ≤ i.toInt ∧ i.toInt ≤ Int64.maxValue.toInt :=
    ⟨i.minValue_le_toInt, i.toInt_le⟩
  rw [readInt64, String.toList_ofList, readInt_ofInt, Option.bind_some, if_pos hrange,
    Int64.ofInt_toInt]

/-- A natural number of 64 bits is read from its decimal text. -/
theorem readNat64_toDigits {n : Nat} (h : n < Nat.pow 2 64) :
    readNat64 (String.ofList (Nat.toDigits 10 n)) = some n := by
  obtain ⟨c, rest, hdigits, hc⟩ := exists_toDigits_eq_cons n
  have hread : readNat (Nat.toDigits 10 n) = some n := by
    rw [hdigits, readNat, ← hdigits]
    · exact readDigits_toDigits n
    · rintro _ ⟨⟩
      exact absurd hc (by decide)
  rw [readNat64, String.toList_ofList, hread, Option.bind_some]
  exact if_pos h

/-- No white space stands at the ends of a decimal text. -/
theorem trim_ofInt (n : Int) : trim (String.ofList (ofInt n)) = String.ofList (ofInt n) := by
  have hblank : ∀ c ∈ ofInt n, isBlank c = false := by
    intro c hc
    rcases eq_or_isDigit_of_mem_ofInt hc with rfl | hc
    · decide
    · exact isBlank_eq_false_of_isDigit hc
  rw [trim, String.toList_ofList, trimChars_eq_self]
  · exact fun c hc => hblank c (List.mem_of_mem_head? hc)
  · exact fun c hc => hblank c (List.mem_of_getLast? hc)

end WorkflowEngine.Text
