import Mathlib.Data.List.Lex
import Mathlib.Data.String.Basic

/-!
# The order of texts by their bytes

Texts compare by the code points of their characters. That is the order of their bytes in UTF-8,
since the bytes of a smaller character are smaller at the first place where they differ, and no
character's bytes begin those of another one.
-/

namespace WorkflowEngine.Text

/-- The bytes of a text in UTF-8. -/
def bytes (s : String) : List UInt8 := s.toUTF8.data.toList

/-- The bytes of a text are those of its characters, one after the other. -/
theorem bytes_eq_flatMap (s : String) : bytes s = s.toList.flatMap String.utf8EncodeChar := by
  conv_lhs => rw [← String.ofList_toList (s := s)]
  rw [bytes, String.toUTF8, String.toByteArray_ofList, List.utf8Encode, List.data_toByteArray]

/-- A byte is smaller than another one, or they are the same and the rest is smaller. -/
theorem cons_ofNat_lt_cons_ofNat_iff {m n : Nat} (hm : m < 256) (hn : n < 256) {r r' : List UInt8} :
    UInt8.ofNat m :: r < UInt8.ofNat n :: r' ↔ m < n ∨ m = n ∧ r < r' := by
  rw [List.cons_lt_cons_iff, UInt8.lt_iff_toNat_lt, ← UInt8.toNat_inj,
    UInt8.toNat_ofNat_of_lt' hm, UInt8.toNat_ofNat_of_lt' hn]

/-- The bytes of a smaller character are smaller, whatever follows. -/
theorem utf8EncodeChar_append_lt {c d : Char} (h : c < d) (r r' : List UInt8) :
    String.utf8EncodeChar c ++ r < String.utf8EncodeChar d ++ r' := by
  have hcd : c.val.toNat < d.val.toNat := h
  have hd : d.val.toNat < 1114112 := by
    rcases d.valid with hd | hd
    · exact Nat.lt_trans hd (by decide)
    · exact hd.2
  unfold String.utf8EncodeChar
  generalize c.val.toNat = m at *
  generalize d.val.toNat = n at *
  -- The bytes after the first one hold six bits each, and three bits are enough for the first.
  have hbits {k : Nat} (hk : k < 1114112) : k = 64 * (k / 64) + k % 64 ∧
      k / 64 = 64 * (k / 4096) + k / 64 % 64 ∧
      k / 4096 = 64 * (k / 262144) + k / 4096 % 64 ∧ k / 262144 % 8 = k / 262144 := by omega
  obtain ⟨hm₁, hm₂, hm₃, hm₄⟩ := hbits (Nat.lt_trans hcd hd)
  obtain ⟨hn₁, hn₂, hn₃, hn₄⟩ := hbits hd
  dsimp only
  split_ifs <;> simp (disch := omega) only [List.cons_append, List.nil_append,
    cons_ofNat_lt_cons_ofNat_iff] <;> omega

/-- A list of characters that comes before another has bytes that come before those of the other. -/
theorem flatMap_lt_flatMap {cs ds : List Char} (h : cs < ds) :
    cs.flatMap String.utf8EncodeChar < ds.flatMap String.utf8EncodeChar := by
  induction h with
  | @nil d ds =>
    have hne : d.utf8Size ≠ 0 := d.utf8Size_pos.ne'
    rw [← String.length_utf8EncodeChar, Ne, List.length_eq_zero_iff] at hne
    rw [List.flatMap_cons]
    obtain ⟨b, rest, hd⟩ := List.exists_cons_of_ne_nil hne
    rw [hd]
    exact List.nil_lt_cons b _
  | cons _ ih => exact List.append_left_lt ih
  | rel h => exact utf8EncodeChar_append_lt h _ _

/-- Texts compare as their bytes do. -/
theorem bytes_lt_bytes_iff {s t : String} : bytes s < bytes t ↔ s < t := by
  have hlt {s t : String} (h : s < t) : bytes s < bytes t := by
    rw [bytes_eq_flatMap, bytes_eq_flatMap]
    exact flatMap_lt_flatMap (String.lt_iff_toList_lt.1 h)
  constructor
  · intro h
    by_contra hst
    by_cases hts : t < s
    · exact List.lt_asymm h (hlt hts)
    · obtain rfl := String.le_antisymm (String.not_lt.1 hts) (String.not_lt.1 hst)
      exact List.lt_irrefl _ h
  · exact hlt

end WorkflowEngine.Text
