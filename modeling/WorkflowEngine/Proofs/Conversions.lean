import WorkflowEngine.Proofs.Json.Compact
import WorkflowEngine.Proofs.Decoding.Order

/-!
# Between payloads and JSON values

A payload survives the way through JSON. A JSON value survives the way through payloads but for its
numbers: those that are integers of 64 bits with sign stay, and every other one comes back as the
text of the number. An integer in a document is one number or the other by its size alone, since
reading it neither wraps nor rounds it.
-/

namespace WorkflowEngine

namespace Json

/-! ## Numbers of a value -/

/-- Whether a number is an integer of 64 bits with sign. -/
def Number.FitsInt64 : Number → Prop
  | .integer n => -2 ^ 63 ≤ n ∧ n < 2 ^ 63
  | .fraction _ _ => False

instance (n : Number) : Decidable n.FitsInt64 :=
  match n with
  | .integer n => inferInstanceAs (Decidable (-2 ^ 63 ≤ n ∧ n < 2 ^ 63))
  | .fraction _ _ => .isFalse id

/-- A whole number fits if it is within the bounds of 64 bits. -/
theorem Number.fitsInt64_integer_iff {n : Int} :
    (integer n).FitsInt64 ↔ Int64.minValue.toInt ≤ n ∧ n ≤ Int64.maxValue.toInt := by
  have hmin : Int64.minValue.toInt = -2 ^ 63 := by decide
  have hmax : Int64.maxValue.toInt = 2 ^ 63 - 1 := by decide
  rw [FitsInt64, hmin, hmax, Int.le_sub_one_iff]

/-- What stands in an object is smaller than the object, which recursion over values goes by. -/
theorem sizeOf_lt_of_mem_members {m : String × Json} {members : List (String × Json)}
    (h : m ∈ members) : sizeOf m.2 < sizeOf (object members) := by
  have hmember := List.sizeOf_lt_of_mem h
  obtain ⟨name, v⟩ := m
  simp only [Prod.mk.sizeOf_spec, object.sizeOf_spec] at hmember ⊢
  omega

/-- The numbers in a value, from the left to the right. -/
def numbers : Json → List Number
  | .null | .boolean _ | .string _ => []
  | .number n => [n]
  | .array items => items.flatMap numbers
  | .object members => members.flatMap fun m => numbers m.2
decreasing_by
  · decreasing_tactic
  · exact sizeOf_lt_of_mem_members ‹_›

/-- A value with other values in place of its numbers. -/
def mapNumbers (f : Number → Json) : Json → Json
  | .null => .null
  | .boolean b => .boolean b
  | .number n => f n
  | .string s => .string s
  | .array items => .array (items.map (mapNumbers f))
  | .object members => .object (members.map fun m => (m.1, mapNumbers f m.2))
decreasing_by
  · decreasing_tactic
  · exact sizeOf_lt_of_mem_members ‹_›

theorem map_eq_self_iff {α : Type} (g : α → α) (l : List α) : l.map g = l ↔ ∀ a ∈ l, g a = a := by
  have h := @List.map_inj_left α α l g id
  rwa [List.map_id] at h

/-- A value is left as it is exactly if each number in it stays in its place. -/
theorem mapNumbers_eq_self_iff (f : Number → Json) (v : Json) :
    v.mapNumbers f = v ↔ ∀ n ∈ v.numbers, f n = .number n := by
  fun_induction mapNumbers f v with
  | case1 | case2 _ | case4 _ =>
    rw [numbers]
    exact iff_of_true rfl (List.forall_mem_nil _)
  | case3 n => rw [numbers, List.forall_mem_singleton]
  | case5 items ih =>
    rw [numbers, List.forall_mem_flatMap, array.injEq, map_eq_self_iff]
    exact forall₂_congr ih
  | case6 members ih =>
    rw [numbers, List.forall_mem_flatMap, object.injEq, map_eq_self_iff]
    refine forall₂_congr fun m hm => ?_
    rw [Prod.ext_iff, ← ih m hm]
    exact and_iff_right rfl

end Json

namespace Payload

open Json

/-! ## The way through payloads -/

/-- What a number becomes on the way through payloads: it stays if it is an integer of 64 bits with
sign, and becomes its text otherwise. -/
def returned (n : Json.Number) : Json :=
  if n.FitsInt64 then .number n else .string (String.ofList n.render)

theorem returned_eq_self_iff (n : Json.Number) : returned n = .number n ↔ n.FitsInt64 := by
  unfold returned
  split
  case isTrue h => exact iff_of_true rfl h
  case isFalse h => exact iff_of_false Json.noConfusion h

/-- A whole number within the bounds is taken as an integer. -/
theorem ofJson_integer {n : Int} (hlow : -2 ^ 63 ≤ n) (hhigh : n < 2 ^ 63) :
    ∃ i : Int64, i.toInt = n ∧ ofJson (.number (.integer n)) = .integer i := by
  have hfits : (Json.Number.integer n).FitsInt64 := ⟨hlow, hhigh⟩
  refine ⟨Int64.ofInt n, Int64.toInt_ofInt_of_le hlow hhigh, ?_⟩
  rw [ofJson, if_pos (Json.Number.fitsInt64_integer_iff.1 hfits)]

/-- A number that does not fit is taken as a text of how it is written. -/
theorem ofJson_number_of_not_fits {n : Json.Number} (h : ¬ n.FitsInt64) :
    ofJson (.number n) = .string (String.ofList n.render) := by
  cases n with
  | fraction negative m => rfl
  | integer n => rw [ofJson, if_neg (mt Json.Number.fitsInt64_integer_iff.2 h)]

/-- A number comes back as what it becomes. -/
theorem toJson_ofJson_number (n : Json.Number) : (ofJson (.number n)).toJson = returned n := by
  by_cases h : n.FitsInt64
  · cases n with
    | fraction negative m => exact h.elim
    | integer n =>
      obtain ⟨i, rfl, hi⟩ := ofJson_integer h.1 h.2
      rw [hi, returned, if_pos h, toJson]
  · rw [ofJson_number_of_not_fits h, returned, if_neg h, toJson]

/-- A value comes back with its numbers replaced by what they become. -/
theorem toJson_ofJson (v : Json) : (ofJson v).toJson = v.mapNumbers returned := by
  fun_induction mapNumbers returned v with
  | case1 | case2 _ | case4 _ => rfl
  | case3 n => exact toJson_ofJson_number n
  | case5 items ih =>
    rw [ofJson, ofJsonItems_eq_map, toJson, toJsonItems_eq_map, List.map_map]
    exact congrArg array (List.map_congr_left ih)
  | case6 members ih =>
    rw [ofJson, ofJsonMembers_eq_map, toJson, toJsonMembers_eq_map, List.map_map]
    refine congrArg Json.object (List.map_congr_left fun m hm => ?_)
    exact congrArg (Prod.mk m.1) (ih m hm)

/-- A value comes back as itself exactly if all of its numbers fit. -/
theorem toJson_ofJson_eq_self_iff (v : Json) :
    (ofJson v).toJson = v ↔ ∀ n ∈ v.numbers, n.FitsInt64 := by
  rw [toJson_ofJson, mapNumbers_eq_self_iff]
  exact forall₂_congr fun n _ => returned_eq_self_iff n

/-- The numbers of a payload's value are integers of 64 bits with sign. -/
theorem fitsInt64_of_mem_numbers {p : Payload} {n : Json.Number} (h : n ∈ p.toJson.numbers) :
    n.FitsInt64 := by
  have hback : (ofJson p.toJson).toJson = p.toJson := congrArg toJson (ofJson_toJson p)
  exact (toJson_ofJson_eq_self_iff p.toJson).1 hback n h

end Payload

/-! ## Integers as written -/

namespace Json.Syntax

open Text

/-- Digits are split off in front of what is no digit. -/
theorem isDigit_of_spanDigits {cs whole rest : List Char} (h : spanDigits cs = (whole, rest)) :
    cs = whole ++ rest ∧ ∀ c ∈ whole, c.isDigit = true := by
  rw [spanDigits, List.span_eq_takeWhile_dropWhile] at h
  obtain ⟨rfl, rfl⟩ := Prod.mk.inj h
  exact ⟨(List.takeWhile_append_dropWhile).symm, List.all_eq_true.1 List.all_takeWhile⟩

/-- Behind a number without fraction and exponent nothing of a number has been read. -/
theorem readTail_plain {negative : Bool} {whole cs rest : List Char} {l : Number.Lexeme}
    (h : readTail negative whole cs = some (l, rest)) (hfraction : l.fraction = none)
    (hexponent : l.exponent = none) : l = ⟨negative, whole, none, none⟩ ∧ cs = rest := by
  have hletter (fraction : Option (List Char)) (r : List Char) :
      ((readExponent r).bind fun a =>
        pure ((⟨negative, whole, fraction, some a.1⟩ : Number.Lexeme), a.2)) ≠ some (l, rest) := by
    intro hread
    obtain ⟨a, -, ha⟩ := Option.bind_eq_some_iff.1 hread
    obtain ⟨rfl, -⟩ := Prod.mk.inj (Option.some.inj ha)
    exact nomatch hexponent
  unfold readTail at h
  split at h
  next =>
    -- A point and digits behind it are a fraction, whatever follows.
    split at h
    next => exact nomatch h
    next =>
      simp only [Option.bind_eq_bind, Option.bind_some] at h
      split at h
      next => exact absurd h (hletter _ _)
      next => exact absurd h (hletter _ _)
      next =>
        obtain ⟨rfl, -⟩ := Prod.mk.inj (Option.some.inj h)
        exact nomatch hfraction
  next =>
    simp only [Option.bind_eq_bind, Option.bind_some] at h
    split at h
    next => exact absurd h (hletter _ _)
    next => exact absurd h (hletter _ _)
    next =>
      obtain ⟨rfl, rfl⟩ := Prod.mk.inj (Option.some.inj h)
      exact ⟨rfl, rfl⟩

/-- Digits that can be the whole part of a number are the decimal text of what they denote. -/
theorem toDigits_natOfDigits_whole {whole : List Char} (hall : ∀ c ∈ whole, c.isDigit = true)
    (hsome : whole ≠ []) (hzero : ∀ c rest, whole ≠ '0' :: c :: rest) :
    Nat.toDigits 10 (natOfDigits whole) = whole := by
  cases whole with
  | nil => exact absurd rfl hsome
  | cons c rest =>
    refine toDigits_natOfDigits hall ?_
    rintro rfl
    cases rest with
    | nil => rfl
    | cons d rest => exact absurd rfl (hzero d rest)

/-- A number without fraction and exponent is written as an integer is, or is minus nought. -/
theorem eq_ofInt_of_readNumber {cs rest : List Char} {l : Number.Lexeme}
    (h : readNumber cs = some (l, rest)) (hfraction : l.fraction = none)
    (hexponent : l.exponent = none) :
    cs = '-' :: '0' :: rest ∨ ∃ n, l = .ofInt n ∧ cs = Text.ofInt n ++ rest := by
  unfold readNumber at h
  split at h
  next negative digits hsign =>
  split at h
  next => exact nomatch h
  next => exact nomatch h
  next whole tail hsome hzero hspan =>
    obtain ⟨rfl, rfl⟩ := readTail_plain h hfraction hexponent
    obtain ⟨rfl, hall⟩ := isDigit_of_spanDigits hspan
    have hdigits : Nat.toDigits 10 (natOfDigits whole) = whole :=
      toDigits_natOfDigits_whole hall hsome hzero
    split at hsign
    next r =>
      obtain ⟨rfl, rfl⟩ := Prod.mk.inj hsign
      rcases Nat.eq_zero_or_pos (natOfDigits whole) with hnought | hpos
      · rw [hnought, Nat.toDigits_zero] at hdigits
        exact .inl (by rw [← hdigits]; rfl)
      · have hneg : -(natOfDigits whole : Int) < 0 := by omega
        refine .inr ⟨-natOfDigits whole, ?_, ?_⟩
        · rw [Number.Lexeme.ofInt, Int.natAbs_neg, Int.natAbs_natCast, hdigits, decide_eq_true hneg]
        · rw [ofInt_of_neg hneg, Int.natAbs_neg, Int.natAbs_natCast, hdigits]
          rfl
    next =>
      obtain ⟨rfl, rfl⟩ := Prod.mk.inj hsign
      have hnonneg : 0 ≤ (natOfDigits whole : Int) := Int.natCast_nonneg _
      refine .inr ⟨natOfDigits whole, ?_, ?_⟩
      · rw [Number.Lexeme.ofInt, Int.natAbs_natCast, hdigits, decide_eq_false (not_lt.2 hnonneg)]
      · rw [ofInt_of_nonneg hnonneg, Int.natAbs_natCast, hdigits]

end Json.Syntax

namespace Payload

open Json

/-- The payload of an integer beyond 64 bits with sign is the text of its decimal digits. -/
theorem ofJson_integer_of_le {n : Int} (h : 2 ^ 63 ≤ n) :
    ofJson (.number (.integer n)) = .string (String.ofList (Nat.toDigits 10 n.toNat)) := by
  have hfits : ¬ (Json.Number.integer n).FitsInt64 := fun hn => absurd hn.2 (Int.not_lt.2 h)
  have hnonneg : 0 ≤ n := by omega
  have hnat : n.natAbs = n.toNat := by omega
  rw [ofJson_number_of_not_fits hfits, Json.Number.render, Text.ofInt_of_nonneg hnonneg, hnat]

/-- Between payloads and JSON values nothing is lost but that numbers become texts:

1. a payload survives the way through JSON;
2. a JSON value comes back from the way through payloads with every number in it that is no integer
   of 64 bits with sign replaced by the text of the number, and is the same just if it has no such
   number;
3. there is none in what comes back, and on the way again neither payload nor value changes.

Integers in a document do not wrap and are not rounded:

4. a number without fraction and exponent is the decimal text of an integer, or minus nought;
5. wherever a value is read, the decimal text of an integer that 64 bits hold, with sign or without,
   is read as this integer; below 2 ^ 63 the payload is the integer, and from there on the text of
   its decimal digits. -/
theorem conversions_keep :
    (∀ p : Payload, ofJson p.toJson = p) ∧
    (∀ v : Json,
      (ofJson v).toJson = (v.mapNumbers fun n =>
        if n.FitsInt64 then .number n else .string (String.ofList n.render)) ∧
      ((ofJson v).toJson = v ↔ ∀ n ∈ v.numbers, n.FitsInt64)) ∧
    (∀ v : Json, (∀ n ∈ (ofJson v).toJson.numbers, n.FitsInt64) ∧
      ofJson (ofJson v).toJson = ofJson v ∧
      (ofJson (ofJson v).toJson).toJson = (ofJson v).toJson) ∧
    (∀ (cs rest : List Char) (l : Json.Number.Lexeme), Syntax.readNumber cs = some (l, rest) →
      l.fraction = none → l.exponent = none →
        cs = '-' :: '0' :: rest ∨ ∃ n, l = .ofInt n ∧ cs = Text.ofInt n ++ rest) ∧
    ∀ n : Int, -2 ^ 63 ≤ n → n < 2 ^ 64 →
      (∀ (fuel depth : Nat) (rest : List Char), EndsNumber rest →
        ∃ t, Syntax.readValue (fuel + 1) (Text.ofInt n ++ rest) = some (t, rest) ∧
          t.toJson? depth = some (.number (.integer n))) ∧
      (n < 2 ^ 63 → ∃ i : Int64, i.toInt = n ∧ ofJson (.number (.integer n)) = .integer i) ∧
      (2 ^ 63 ≤ n →
        ofJson (.number (.integer n)) = .string (String.ofList (Nat.toDigits 10 n.toNat))) := by
  refine ⟨ofJson_toJson, fun v => ⟨toJson_ofJson v, toJson_ofJson_eq_self_iff v⟩, ?_, ?_, ?_⟩
  · intro v
    have hback : ofJson (ofJson v).toJson = ofJson v := ofJson_toJson (ofJson v)
    exact ⟨fun n h => fitsInt64_of_mem_numbers h, hback, congrArg toJson hback⟩
  · intro cs rest l h hfraction hexponent
    exact Syntax.eq_ofInt_of_readNumber h hfraction hexponent
  · intro n hlow hhigh
    refine ⟨?_, ofJson_integer hlow, ofJson_integer_of_le⟩
    intro fuel depth rest hrest
    exact ⟨_, Syntax.readValue_ofInt ⟨hlow, hhigh⟩ fuel hrest, rfl⟩

/-- The integer 2 ^ 64 - 1 is read at the end of a list and becomes a text, the least integer of 64
bits with sign stays, and a minus and one digit are an integer. -/
theorem conversions_keep_bounds :
    (∃ t, Syntax.readValue 1 (Text.ofInt 18446744073709551615 ++ [']']) = some (t, [']']) ∧
      t.toJson? 0 = some (.number (.integer 18446744073709551615))) ∧
    ofJson (.number (.integer 18446744073709551615)) = .string "18446744073709551615" ∧
    (∃ i : Int64, i.toInt = -9223372036854775808 ∧
      ofJson (.number (.integer (-9223372036854775808))) = .integer i) ∧
    ∃ n, Json.Number.Lexeme.mk true ['7'] none none = .ofInt n := by
  obtain ⟨-, -, -, hplain, hinteger⟩ := conversions_keep
  obtain ⟨hread, -, htext⟩ := hinteger 18446744073709551615 (by decide) (by decide)
  obtain ⟨-, hleast, -⟩ := hinteger (-9223372036854775808) (by decide) (by decide)
  have hends : EndsNumber [']'] := ⟨by decide, by decide, by decide, by decide⟩
  have hdigits : String.ofList (Nat.toDigits 10 (18446744073709551615 : Int).toNat) =
      "18446744073709551615" := by decide +kernel
  refine ⟨hread 0 0 [']'] hends, hdigits ▸ htext (by decide), hleast (by decide), ?_⟩
  have hseven : Syntax.readNumber ['-', '7'] = some (⟨true, ['7'], none, none⟩, []) := by decide
  rcases hplain _ _ _ hseven rfl rfl with hnought | ⟨n, hn, -⟩
  · exact absurd hnought (by decide)
  · exact ⟨n, hn⟩

end Payload

end WorkflowEngine
