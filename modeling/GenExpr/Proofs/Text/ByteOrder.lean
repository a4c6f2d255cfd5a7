import Mathlib.Data.String.Basic

/-!
# The order of bytes

Texts that are in the order of their characters are in the order of their bytes in UTF-8.
-/

namespace GenExpr.Text

open String (utf8EncodeChar)

/-- The bytes of a text in UTF-8. -/
def bytes (s : String) : List UInt8 := s.toUTF8.data.toList

theorem bytes_eq_flatMap (s : String) : bytes s = s.toList.flatMap utf8EncodeChar := by
  have hbytes : s.toUTF8 = (s.toList.flatMap utf8EncodeChar).toByteArray :=
    String.utf8Encode_toList.symm
  rw [bytes, hbytes, List.toList_data_toByteArray]

theorem toNat_le_max (c : Char) : c.toNat ≤ 0x10ffff := by
  rcases c.valid with h | h
  · have hlt : c.toNat < 0xd800 := h
    omega
  · have hlt : c.toNat < 0x110000 := h.2
    omega

theorem byte_eq_iff {m n : Nat} (hm : m < 256) (hn : n < 256) :
    UInt8.ofNat m = UInt8.ofNat n ↔ m = n := by
  rw [← UInt8.toNat_inj, UInt8.toNat_ofNat', UInt8.toNat_ofNat', Nat.mod_eq_of_lt hm,
    Nat.mod_eq_of_lt hn]

/-- The bytes of two characters differ at some place, and the first such place decides. -/
theorem encoded_lt {c d : Char} (h : c < d) (s t : List UInt8) :
    utf8EncodeChar c ++ s < utf8EncodeChar d ++ t := by
  have hlt : c.toNat < d.toNat := h
  have hmax := toNat_le_max d
  have hbyte : ∀ {m n : Nat}, m < 256 → n < 256 → (UInt8.ofNat m < UInt8.ofNat n ↔ m < n) :=
    UInt8.ofNat_lt_iff_lt
  unfold utf8EncodeChar
  simp only [Char.toNat_val]
  generalize c.toNat = m at *
  generalize d.toNat = n at *
  -- Every byte after the first is a digit of base 64.
  have hm₂ : m / 4096 = m / 64 / 64 := by omega
  have hm₃ : m / 262144 = m / 64 / 64 / 64 := by omega
  have hn₂ : n / 4096 = n / 64 / 64 := by omega
  have hn₃ : n / 262144 = n / 64 / 64 / 64 := by omega
  rw [hm₂, hm₃, hn₂, hn₃]
  clear hm₂ hm₃ hn₂ hn₃
  -- More bytes come with a greater first byte, so that the numbers of bytes are told apart as well.
  split_ifs <;> simp only [List.cons_append, List.nil_append, List.cons_lt_cons_iff] <;>
    simp (disch := omega) only [hbyte, byte_eq_iff] <;> omega

theorem flatMap_encoded_lt {as bs : List Char} (h : as < bs) :
    as.flatMap utf8EncodeChar < bs.flatMap utf8EncodeChar := by
  induction as generalizing bs with
  | nil =>
    cases bs with
    | nil => exact absurd h (List.lt_irrefl [])
    | cons d bs =>
      obtain ⟨x, xs, hx⟩ := List.exists_cons_of_ne_nil (String.utf8EncodeChar_ne_nil (c := d))
      rw [List.flatMap_nil, List.flatMap_cons, hx]
      exact List.nil_lt_cons _ _
  | cons c as ih =>
    cases bs with
    | nil => exact absurd h (List.not_lt_nil _)
    | cons d bs =>
      rw [List.flatMap_cons, List.flatMap_cons]
      rcases List.cons_lt_cons_iff.1 h with hlt | ⟨rfl, hlt⟩
      · exact encoded_lt hlt _ _
      · exact List.append_left_lt (ih hlt)

theorem bytes_lt_bytes {s t : String} (h : s < t) : bytes s < bytes t := by
  rw [bytes_eq_flatMap, bytes_eq_flatMap]
  exact flatMap_encoded_lt (String.lt_iff_toList_lt.1 h)

end GenExpr.Text
