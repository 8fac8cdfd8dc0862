import WorkflowEngine.Payload
import WorkflowEngine.Proofs.Text.Numerals

/-!
# Integers in texts, and coercion

A text is read as an integer just if it denotes one of 64 bits, and coercion takes the same texts
for integers; it leaves every other text as it is, white space included. What has been coerced
stays as it is when it is coerced again, and an integer or a truth value comes back from its text.
-/

namespace WorkflowEngine.Payload

open Text

/-! ## Texts read as integers -/

/-- A text that denotes an integer of 64 bits is read as this integer, and coerced to it. -/
theorem parseAs_integer_of_denotes {s : String} {i : Int64} (h : Denotes s i.toInt) :
    parseAs s .integer = .ok (.integer i) ∧ coerce .integer (.string s) = .integer i := by
  have hread := readInt64_trim_eq_some_iff.2 h
  constructor
  · rw [parseAs, hread]
  · rw [coerce, hread]

/-- A text that does not is neither. -/
theorem parseAs_integer_of_not_denotes {s : String} (h : ∀ i : Int64, ¬ Denotes s i.toInt) :
    parseAs s .integer = .error (.read (.notInteger s)) ∧
      coerce .integer (.string s) = .string s := by
  have hread : readInt64 (trim s) = none :=
    Option.eq_none_iff_forall_ne_some.2 fun i hi => h i (readInt64_trim_eq_some_iff.1 hi)
  constructor
  · rw [parseAs, hread]
  · rw [coerce, hread]

/-! ## Coercion -/

/-- What is coerced to a type stays as it is when it is coerced to it again. -/
theorem coerce_coerce (t : ValueType) (p : Payload) : coerce t (coerce t p) = coerce t p := by
  cases t with
  | string => rfl
  | integer =>
    cases p with
    | string s =>
      by_cases h : ∃ i : Int64, Denotes s i.toInt
      · obtain ⟨i, hi⟩ := h
        rw [(parseAs_integer_of_denotes hi).2]
        rfl
      · have hs := (parseAs_integer_of_not_denotes (not_exists.1 h)).2
        rw [hs, hs]
    | null | integer _ | boolean _ | object _ | list _ => rfl
  | boolean =>
    cases p with
    | string s =>
      by_cases htrue : trim s = "true"
      · simp [coerce, htrue]
      · by_cases hfalse : trim s = "false"
        · simp [coerce, hfalse]
        · simp [coerce]
    | null | integer _ | boolean _ | object _ | list _ => rfl
  | object | list | any => rfl

/-- An integer comes back from its text. -/
theorem coerce_text_integer (i : Int64) :
    coerce .integer (coerce .string (.integer i)) = .integer i := by
  have htext : coerce .string (.integer i) = .string (String.ofList (ofInt i.toInt)) := rfl
  rw [htext, coerce, trim_ofInt, readInt64_ofInt]

/-- A truth value comes back from its text. -/
theorem coerce_text_boolean (b : Bool) :
    coerce .boolean (coerce .string (.boolean b)) = .boolean b := by
  cases b <;> decide +kernel

/-- Integers in texts, and coercion:

1. a text that denotes an integer between -2 ^ 63 and 2 ^ 63 - 1 is read as this integer, and
   coercion gives it as well;
2. every other text is refused when it is read, and coercion leaves it as it is;
3. what has been coerced to a type does not change when it is coerced to it again;
4. an integer or a truth value that has been coerced to a text is coerced back to itself. -/
theorem parseAs_integer_coerces :
    (∀ (s : String) (n : Int), Denotes s n → -2 ^ 63 ≤ n → n ≤ 2 ^ 63 - 1 →
      ∃ i : Int64, i.toInt = n ∧ parseAs s .integer = .ok (.integer i) ∧
        coerce .integer (.string s) = .integer i) ∧
    (∀ s : String, (¬ ∃ n, Denotes s n ∧ -2 ^ 63 ≤ n ∧ n ≤ 2 ^ 63 - 1) →
      parseAs s .integer = .error (.read (.notInteger s)) ∧
        coerce .integer (.string s) = .string s) ∧
    (∀ (p : Payload) (t : ValueType), coerce t (coerce t p) = coerce t p) ∧
    ∀ p : Payload, p.type = .integer ∨ p.type = .boolean →
      coerce p.type (coerce .string p) = p := by
  have hmin : Int64.minValue.toInt = -2 ^ 63 := by decide
  have hmax : Int64.maxValue.toInt = 2 ^ 63 - 1 := by decide
  refine ⟨?_, ?_, fun p t => coerce_coerce t p, ?_⟩
  · intro s n h hlow hhigh
    have hn : (Int64.ofInt n).toInt = n := Int64.toInt_ofInt_of_le (by omega) (by omega)
    exact ⟨Int64.ofInt n, hn, parseAs_integer_of_denotes (hn.symm ▸ h)⟩
  · intro s h
    apply parseAs_integer_of_not_denotes
    intro i hi
    have hlow := i.minValue_le_toInt
    have hhigh := i.toInt_le
    exact h ⟨i.toInt, hi, by omega, by omega⟩
  · intro p h
    cases p with
    | integer i => exact coerce_text_integer i
    | boolean b => exact coerce_text_boolean b
    | null | string _ | object _ | list _ => simp [type] at h

/-- White space of any kind may stand around an integer, and the bounds are met exactly: the least
integer is read with zeros in front, and the one after the greatest is left to be a text. -/
theorem parseAs_integer_coerces_bounds :
    (∃ i : Int64, i.toInt = -9223372036854775808 ∧
      parseAs " \u2003-009223372036854775808\n" .integer = .ok (.integer i) ∧
      coerce .integer (.string " \u2003-009223372036854775808\n") = .integer i) ∧
    (parseAs "\t9223372036854775808" .integer =
        .error (.read (.notInteger "\t9223372036854775808")) ∧
      coerce .integer (.string "\t9223372036854775808") = .string "\t9223372036854775808") ∧
    coerce (type (.boolean false)) (coerce .string (.boolean false)) = .boolean false := by
  obtain ⟨hread, hrefused, -, hback⟩ := parseAs_integer_coerces
  have hleast : Denotes " \u2003-009223372036854775808\n" (-9223372036854775808) :=
    denotes_iff.2 (by decide +kernel)
  have hgreat : Denotes "\t9223372036854775808" 9223372036854775808 :=
    denotes_iff.2 (by decide +kernel)
  refine ⟨hread _ _ hleast (by decide) (by decide), hrefused _ ?_, hback _ (.inr rfl)⟩
  rintro ⟨n, hn, -, hhigh⟩
  obtain rfl := hn.unique hgreat
  exact absurd hhigh (by decide)

end WorkflowEngine.Payload
