import WorkflowEngine.Json.Syntax
import WorkflowEngine.Proofs.Text.Integers
import Mathlib.Algebra.Order.Ring.Int
import Mathlib.Data.List.TakeDrop

/-!
# Reading written words

An integer and a text are read from what is written for them, whatever follows: every character of
a text is read from its escape, and the digits of an integer end where no more of a number can
come.
-/

namespace WorkflowEngine.Json

open Text

/-! ## Numbers -/

/-- Whether a text does not go on with a number: no digit, no point and no letter of an exponent
stands in front. -/
def EndsNumber : List Char → Prop
  | [] => True
  | c :: _ => c.isDigit = false ∧ c ≠ '.' ∧ c ≠ 'e' ∧ c ≠ 'E'

/-- An integer that numbers without fraction and exponent can be. -/
def InRange (n : Int) : Prop := -2 ^ 63 ≤ n ∧ n < 2 ^ 64

namespace Number

/-- The significand does not become smaller by further digits. -/
theorem le_foldl_digits (s : Nat) (digits : List Char) :
    s ≤ digits.foldl (fun n c => 10 * n + digitValue c) s := by
  induction digits generalizing s with
  | nil => exact Nat.le_refl s
  | cons c rest ih =>
    have h := ih (10 * s + digitValue c)
    rw [List.foldl_cons]
    omega

/-- Digits are absorbed as long as what they denote stays within 64 bits. -/
theorem absorb_of_lt (s taken : Nat) (digits : List Char)
    (h : digits.foldl (fun n c => 10 * n + digitValue c) s < 2 ^ 64) :
    absorb s taken digits =
      (digits.foldl (fun n c => 10 * n + digitValue c) s, taken + digits.length, []) := by
  induction digits generalizing s taken with
  | nil => rfl
  | cons c rest ih =>
    rw [List.foldl_cons] at h
    have hnext : 10 * s + digitValue c < Nat.pow 2 64 :=
      Nat.lt_of_le_of_lt (le_foldl_digits _ rest) h
    simp only [absorb, if_pos hnext, ih _ (taken + 1) h, List.foldl_cons, List.length_cons]
    rw [Nat.add_assoc, Nat.add_comm 1]

/-- The digits of a number below the bound are all absorbed. -/
theorem absorb_toDigits {n : Nat} (h : n < 2 ^ 64) :
    absorb 0 0 (Nat.toDigits 10 n) = (n, (Nat.toDigits 10 n).length, []) := by
  have hvalue : (Nat.toDigits 10 n).foldl (fun n c => 10 * n + digitValue c) 0 = n :=
    natOfDigits_toDigits n
  have habsorb := absorb_of_lt 0 0 (Nat.toDigits 10 n) (hvalue.symm ▸ h)
  rw [hvalue, Nat.zero_add] at habsorb
  exact habsorb

/-- The parts of an integer as it is written. -/
def Lexeme.ofInt (n : Int) : Lexeme := ⟨n < 0, Nat.toDigits 10 n.natAbs, none, none⟩

/-- An integer in range is what its written parts denote. -/
theorem ofLexeme_ofInt {n : Int} (h : InRange n) : ofLexeme (.ofInt n) = some (.integer n) := by
  obtain ⟨hlow, hhigh⟩ := h
  have habsorb := absorb_toDigits (n := n.natAbs) (by omega)
  simp only [ofLexeme, Lexeme.ofInt, habsorb, List.isEmpty_nil, and_self, if_true]
  by_cases hn : n < 0
  · have hbound : 0 < n.natAbs ∧ n.natAbs ≤ Nat.pow 2 63 := by
      show 0 < n.natAbs ∧ n.natAbs ≤ 2 ^ 63
      omega
    have hneg : -Int.ofNat n.natAbs = n := by
      rw [Int.ofNat_eq_natCast]
      omega
    rw [decide_eq_true hn, if_pos rfl, if_pos hbound, hneg]
  · rw [decide_eq_false hn, if_neg Bool.false_ne_true]
    exact congrArg (fun m => some (integer m)) (Int.natAbs_of_nonneg (Int.not_lt.1 hn))

end Number

namespace Syntax

/-- Digits are spanned up to where a number may end. -/
theorem spanDigits_of_endsNumber {digits rest : List Char}
    (hall : ∀ c ∈ digits, c.isDigit = true) (hrest : EndsNumber rest) :
    spanDigits (digits ++ rest) = (digits, rest) := by
  rw [spanDigits, List.span_eq_takeWhile_dropWhile, List.takeWhile_append_of_pos hall,
    List.dropWhile_append_of_pos hall]
  cases rest with
  | nil => rw [List.takeWhile_nil, List.dropWhile_nil, List.append_nil]
  | cons c rest =>
    have hc : ¬ c.isDigit = true := Bool.eq_false_iff.1 hrest.1
    rw [List.takeWhile_cons_of_neg hc, List.dropWhile_cons_of_neg hc, List.append_nil]

/-- A number without fraction and exponent ends where a number may end. -/
theorem readTail_of_endsNumber (negative : Bool) (whole : List Char) {rest : List Char}
    (h : EndsNumber rest) :
    readTail negative whole rest = some (⟨negative, whole, none, none⟩, rest) := by
  unfold readTail
  cases rest with
  | nil => rfl
  | cons c rest =>
    obtain ⟨-, hpoint, he, hE⟩ := h
    simp [hpoint, he, hE]

/-- An integer is read from its decimal text. -/
theorem readNumber_ofInt (n : Int) {rest : List Char} (h : EndsNumber rest) :
    readNumber (Text.ofInt n ++ rest) = some (.ofInt n, rest) := by
  have hspan : spanDigits (Nat.toDigits 10 n.natAbs ++ rest) = (Nat.toDigits 10 n.natAbs, rest) :=
    spanDigits_of_endsNumber (fun c hc => isDigit_of_mem_toDigits hc) h
  unfold readNumber
  split
  next negative cs hparts =>
  have hsign : negative = decide (n < 0) ∧ cs = Nat.toDigits 10 n.natAbs ++ rest := by
    rcases Int.lt_or_le n 0 with hn | hn
    · rw [ofInt_of_neg hn] at hparts
      obtain ⟨rfl, rfl⟩ := Prod.mk.inj hparts
      exact ⟨(decide_eq_true hn).symm, rfl⟩
    · obtain ⟨c, digits, hdigits, hc⟩ := exists_toDigits_eq_cons n.natAbs
      rw [ofInt_of_nonneg hn, hdigits] at hparts
      split at hparts
      next hminus =>
        obtain rfl := (List.cons.inj hminus).1
        exact absurd hc (by decide)
      next =>
        obtain ⟨rfl, rfl⟩ := Prod.mk.inj hparts
        exact ⟨(decide_eq_false (Int.not_lt.2 hn)).symm, by rw [hdigits]⟩
  obtain ⟨rfl, rfl⟩ := hsign
  rw [hspan]
  split
  case h_1 hempty => exact absurd (Prod.mk.inj hempty).1 Nat.toDigits_ne_nil
  case h_2 hzero => exact absurd (Prod.mk.inj hzero).1 (toDigits_ne_zero_cons_cons _ _ _)
  case h_3 hwhole =>
    obtain ⟨rfl, rfl⟩ := Prod.mk.inj hwhole
    exact readTail_of_endsNumber _ _ h

/-! ## Texts -/

/-- The value of a hexadecimal digit is what the digit was written for. -/
theorem hexValue?_hexDigit {n : Nat} (h : n < 16) : hexValue? (hexDigit n) = some n := by
  revert n
  decide

/-- The escape of a control character has its code as its unit. -/
theorem unit?_control {n : Nat} (h : n < 0x20) :
    unit? '0' '0' (hexDigit (n / 16)) (hexDigit (n % 16)) = some n := by
  have hzero : hexValue? '0' = some 0 := by decide
  have hhigh : hexValue? (hexDigit (n / 16)) = some (n / 16) := hexValue?_hexDigit (by omega)
  have hlow : hexValue? (hexDigit (n % 16)) = some (n % 16) := hexValue?_hexDigit (by omega)
  simp only [unit?, hzero, hhigh, hlow, Option.bind_eq_bind, Option.bind_some, Option.pure_def]
  exact congrArg some (by omega)

/-- A character is read from its escape. -/
theorem readQuoted_escape (p : Progress) (c : Char) (rest : List Char) :
    readQuoted p (escape c ++ rest) = readQuoted (p.push c) rest := by
  unfold escape
  split_ifs with hquote hslash hline hreturn htab hback hfeed hcontrol
  · exact hquote.symm ▸ rfl
  · exact hslash.symm ▸ rfl
  · exact hline ▸ rfl
  · exact hreturn ▸ rfl
  · exact htab ▸ rfl
  · exact hback ▸ rfl
  · exact hfeed ▸ rfl
  · have hpush : p.pushUnit c.toNat = p.push c := by
      have hlow : isLowHalf c.toNat = false := by simp [isLowHalf]; omega
      have hhigh : isHighHalf c.toNat = false := by simp [isHighHalf]; omega
      rw [Progress.pushUnit, hlow, hhigh, Char.ofNat_toNat]
      rfl
    simp only [List.cons_append, List.nil_append, readQuoted, unit?_control hcontrol, hpush]
  · rw [List.singleton_append, readQuoted, if_neg hcontrol]
    · exact hquote
    · exact fun _ _ _ _ _ hc _ => hslash hc
    · exact fun _ _ hc _ => hslash hc

theorem settled_push (p : Progress) (c : Char) : (p.push c).settled = p.settled.map (c :: ·) := rfl

/-- A text is read from its escaped characters up to the closing quotation mark. -/
theorem readQuoted_flatMap_escape (p : Progress) (cs rest : List Char) :
    readQuoted p (cs.flatMap escape ++ '"' :: rest) =
      some (p.settled.map fun read => String.ofList (read.reverse ++ cs), rest) := by
  induction cs generalizing p with
  | nil =>
    simp only [List.append_nil]
    rfl
  | cons c cs ih =>
    rw [List.flatMap_cons, List.append_assoc, readQuoted_escape, ih, settled_push, Option.map_map]
    simp only [Function.comp_def, List.reverse_cons, List.append_assoc, List.singleton_append]

/-- A text is read from its quotation. -/
theorem readQuoted_quoted (s : String) (rest : List Char) :
    readQuoted .start (s.toList.flatMap escape ++ '"' :: rest) = some (some s, rest) := by
  rw [readQuoted_flatMap_escape]
  exact congrArg (fun t => some (some t, rest)) String.ofList_toList

end Syntax

end WorkflowEngine.Json
