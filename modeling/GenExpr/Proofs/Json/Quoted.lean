import GenExpr.Json.Reader
import GenExpr.Json.Writer

/-!
# Strings in JSON

Whatever characters a string holds, it is read back from its JSON text: each character is read from its
own escape and leaves what follows it untouched.
-/

namespace GenExpr.Json

theorem hexDigit?_digitChar : ∀ d < 16, hexDigit? (Nat.digitChar d) = some d := by decide

theorem utf8Size_digitChar : ∀ d < 16, (Nat.digitChar d).utf8Size = 1 := by decide

/-- The escape of a control has four digits, of which the last two count. -/
theorem codePoint_control {c : Char} (hc : c.toNat < 0x20) (r : List Char) :
    codePoint ('0' :: '0' :: Nat.digitChar (c.toNat / 16) :: Nat.digitChar (c.toNat % 16) :: r) =
      .ok (c, r) := by
  have hhigh : c.toNat / 16 < 16 := by omega
  have hlow : c.toNat % 16 < 16 := by omega
  have hzero : hexDigit? '0' = some 0 := rfl
  have hnumber : ((0 * 16 + 0) * 16 + c.toNat / 16) * 16 + c.toNat % 16 = c.toNat := by omega
  have hquad : hexQuad ('0' :: '0' :: Nat.digitChar (c.toNat / 16) :: Nat.digitChar (c.toNat % 16) ::
      r) = .ok (c.toNat, r) := by
    have hlength : Text.byteLength ['0', '0', Nat.digitChar (c.toNat / 16),
        Nat.digitChar (c.toNat % 16)] = 4 := by
      simp only [Text.byteLength, List.foldr_cons, List.foldr_nil, utf8Size_digitChar _ hhigh,
        utf8Size_digitChar _ hlow]
      rfl
    simp only [hexQuad, List.take_succ_cons, List.take_zero, hlength, hexQuad?, hzero,
      hexDigit?_digitChar _ hhigh, hexDigit?_digitChar _ hlow, hnumber]
    rfl
  simp only [codePoint, hquad]
  rw [if_neg (by omega), if_pos (by omega), Char.ofNat_toNat]

/-- A character is escaped by a text that it is read from, or it stands for itself. -/
theorem escape_cases (c : Char) :
    (∃ text, escape c = '\\' :: text ∧ ∀ r, escaped (text ++ r) = .ok (c, r)) ∨
    (escape c = [c] ∧ c ≠ '"' ∧ c ≠ '\\' ∧ 0x20 ≤ c.toNat) := by
  by_cases hletter : c ∈ ['"', '\\', '\x08', '\x0c', '\n', '\r', '\t']
  · refine .inl ⟨(escape c).tail, ?_⟩
    simp only [List.mem_cons, List.not_mem_nil, or_false] at hletter
    rcases hletter with rfl | rfl | rfl | rfl | rfl | rfl | rfl <;> exact ⟨rfl, fun _ => rfl⟩
  · simp only [List.mem_cons, List.not_mem_nil, or_false, not_or] at hletter
    obtain ⟨hquote, hslash, hb, hf, hn, hr, ht⟩ := hletter
    by_cases hcontrol : c.toNat < 0x20
    · refine .inl ⟨['u', '0', '0', Nat.digitChar (c.toNat / 16), Nat.digitChar (c.toNat % 16)], ?_, ?_⟩
      · simp [escape, hquote, hslash, hb, hf, hn, hr, ht, hcontrol]
      · intro r
        have hunicode : ∀ cs, escaped ('u' :: cs) = codePoint cs := fun _ => rfl
        rw [List.cons_append, hunicode]
        exact codePoint_control hcontrol r
    · refine .inr ⟨?_, hquote, hslash, Nat.le_of_not_lt hcontrol⟩
      simp [escape, hquote, hslash, hb, hf, hn, hr, ht, hcontrol]

theorem escape_ne_nil (c : Char) : escape c ≠ [] := by
  rcases escape_cases c with ⟨text, h, -⟩ | ⟨h, -⟩
  · rw [h]
    exact List.cons_ne_nil _ _
  · rw [h]
    exact List.cons_ne_nil _ _

/-- A character is read from its escape. -/
theorem characters_escape (n : Nat) (c : Char) {r more rest : List Char}
    (h : characters n r = .ok (more, rest)) :
    characters (n + 1) (escape c ++ r) = .ok (c :: more, rest) := by
  rcases escape_cases c with ⟨text, htext, hescaped⟩ | ⟨hself, hquote, hslash, hcontrol⟩
  · rw [htext, List.cons_append, characters, if_neg (by decide), if_pos rfl, hescaped]
    simp only [h]
  · rw [hself, List.singleton_append, characters, if_neg hquote, if_neg hslash,
      if_neg (Nat.not_lt.2 hcontrol), h]

theorem characters_escaped {cs : List Char} (rest : List Char) {n : Nat}
    (hn : (cs.flatMap escape).length < n) :
    characters n (cs.flatMap escape ++ '"' :: rest) = .ok (cs, rest) := by
  induction cs generalizing n with
  | nil =>
    obtain ⟨n, rfl⟩ := Nat.exists_eq_succ_of_ne_zero (Nat.ne_zero_of_lt hn)
    rfl
  | cons c cs ih =>
    obtain ⟨n, rfl⟩ := Nat.exists_eq_succ_of_ne_zero (Nat.ne_zero_of_lt hn)
    have hc : 0 < (escape c).length := List.length_pos_iff.2 (escape_ne_nil c)
    rw [List.flatMap_cons, List.length_append] at hn
    rw [List.flatMap_cons, List.append_assoc]
    exact characters_escape n c (ih (by omega))

/-- What follows the opening quote of a written string is read back as the string. -/
theorem stringRest_escaped (s : String) (rest : List Char) :
    stringRest (s.toList.flatMap escape ++ '"' :: rest) = .ok (s, rest) := by
  have hlength : (s.toList.flatMap escape).length <
      (s.toList.flatMap escape ++ '"' :: rest).length + 1 := by
    rw [List.length_append]
    omega
  rw [stringRest, characters_escaped rest hlength]
  simp only [String.ofList_toList]

end GenExpr.Json
