import GenExpr.Proofs.Node.Meaning

/-!
# Texts that are ranges

Which texts are ranges of numbers and which are ranges of characters. Two digits with a hyphen between
them are numbers, and not characters.
-/

namespace GenExpr

/-- Two finite numbers with a hyphen between them, in order and not too far apart. -/
def IsNumberInterval (text : String) : Prop :=
  ∃ lo hi, Spans text lo hi ∧ lo.le hi = true ∧ (hi.sub lo).isFinite = true

/-- Two characters other than hyphens with a hyphen between them, in order, that are not both digits. -/
def IsCharInterval (text : String) : Prop :=
  ∃ a b : Char, text.toList = [a, '-', b] ∧ a ≠ '-' ∧ b ≠ '-' ∧ a ≤ b ∧
    ¬(a.isDigit = true ∧ b.isDigit = true)

section Digit

variable {c : Char}

theorem exists_digitChar_of_isDigit (h : c.isDigit = true) : ∃ n < 10, c = Nat.digitChar n := by
  have hbounds : 48 ≤ c.toNat ∧ c.toNat ≤ 57 := by
    simpa [Char.isDigit, UInt32.le_iff_toNat_le] using h
  have hchar : ∀ n < 10, Char.ofNat (n + 48) = Nat.digitChar n := by decide
  refine ⟨c.toNat - 48, by omega, ?_⟩
  rw [← hchar _ (by omega), Nat.sub_add_cancel hbounds.1, Char.ofNat_toNat]

theorem Decimal.finite?_digit : ∀ n < 10, (finite? [Nat.digitChar n]).isSome = true := by
  decide +kernel

/-- A single character is a number if it is a digit. -/
theorem Decimal.isSome_finite?_singleton (c : Char) : (finite? [c]).isSome = c.isDigit := by
  cases hc : c.isDigit with
  | true =>
    obtain ⟨n, hn, rfl⟩ := exists_digitChar_of_isDigit hc
    exact finite?_digit n hn
  | false =>
    have hnumeral : numeral? [c] = none := by
      by_cases hsign : c = '-' ∨ c = '+' ∨ c = '.'
      · rcases hsign with rfl | rfl | rfl
        · rfl
        · rfl
        · rfl
      · rw [not_or, not_or] at hsign
        have hunsigned : sign? [c] = (false, [c]) := by
          rw [sign?.eq_def]
          split
          next heq => exact absurd (List.cons.inj heq).1 hsign.1
          next heq => exact absurd (List.cons.inj heq).1 hsign.2.1
          next => rfl
        have hpoint : fraction [c] = ([], [c]) := by
          rw [fraction.eq_def]
          split
          next heq => exact absurd (List.cons.inj heq).1 hsign.2.2
          next => rfl
        simp [numeral?, hunsigned, hpoint, hc]
    rw [finite?, hnumeral]
    rfl

end Digit

theorem Expression.isBound_singleton {p : Char → Bool} {c : Char} :
    IsBound p [c] ↔ p c = true := by
  constructor
  · rintro ⟨body, hne, hbody, heq | heq⟩
    · exact hbody c (heq ▸ List.mem_singleton_self c)
    · obtain ⟨-, rfl⟩ := List.cons.inj heq
      exact absurd rfl hne
  · intro hc
    exact ⟨[c], List.cons_ne_nil _ _, by simpa using hc, .inl rfl⟩

theorem NumberRange.exists_parse_iff {text : String} :
    (∃ r, NumberRange.parse text = .ok r) ↔ IsNumberInterval text := by
  constructor
  · rintro ⟨r, h⟩
    exact ⟨r.min, r.max, spans_of_parse h, r.min_le_max, r.finite_width⟩
  · rintro ⟨lo, hi, ⟨l, r, hl, hr, htext, hlo, hhi⟩, hle, hfinite⟩
    have hbounds : Range.ofBounds? l r = some (.number ⟨lo, hi, hle, hfinite⟩) := by
      rw [Range.ofBounds?.eq_def, hlo, hhi]
      simp only [ofBounds?, dif_pos (And.intro hle hfinite), Option.map_some]
    have hread := Range.read?_eq_some_iff.2 ⟨l, r, hl, hr, htext, hbounds⟩
    exact ⟨⟨lo, hi, hle, hfinite⟩, by rw [parse, hread]⟩

theorem CharRange.exists_parse_iff {text : String} :
    (∃ r, CharRange.parse text = .ok r) ↔ IsCharInterval text := by
  constructor
  · rintro ⟨r, h⟩
    rw [parse] at h
    split at h
    next r' hread =>
      obtain rfl := Except.ok.inj h
      obtain ⟨lo, hi, hlo, hhi, htext, hbounds⟩ := Range.read?_eq_some_iff.1 hread
      obtain ⟨rfl, rfl⟩ := Range.hasBounds_of_ofBounds? hbounds
      rw [Expression.isBound_singleton, Range.isBoundChar, decide_eq_true_eq] at hlo hhi
      refine ⟨r'.min, r'.max, htext, hlo, hhi, r'.min_le_max, ?_⟩
      rintro ⟨hmin, hmax⟩
      rw [← Decimal.isSome_finite?_singleton, Option.isSome_iff_exists] at hmin hmax
      obtain ⟨x, hx⟩ := hmin
      obtain ⟨y, hy⟩ := hmax
      rw [Range.ofBounds?.eq_def, hx, hy] at hbounds
      simp at hbounds
    next => cases h
  · rintro ⟨a, b, htext, ha, hb, hle, hdigits⟩
    have hbounds : Range.ofBounds? [a] [b] = some (.char ⟨a, b, hle⟩) := by
      rw [Range.ofBounds?.eq_def]
      split
      next hx hy =>
        refine absurd ⟨?_, ?_⟩ hdigits
        · rw [← Decimal.isSome_finite?_singleton, hx]
          rfl
        · rw [← Decimal.isSome_finite?_singleton, hy]
          rfl
      next => simp only [ofBounds?, dif_pos hle, Option.map_some]
    have hread := Range.read?_eq_some_iff.2 ⟨[a], [b],
      Expression.isBound_singleton.2 (decide_eq_true ha),
      Expression.isBound_singleton.2 (decide_eq_true hb), htext, hbounds⟩
    exact ⟨⟨a, b, hle⟩, by rw [parse, hread]⟩

end GenExpr
