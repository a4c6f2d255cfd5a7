import GenExpr.Decimal.Layout
import GenExpr.Proofs.Decimal.Numeral

/-!
# Layouts read back

Whatever layout sets down the digits of a number, the text is a numeral with the value of those digits.
A text has a hyphen in it only for the exponent of a number below the least one that the layout writes
without an exponent.
-/

namespace GenExpr.Decimal

open Binary64

/-- Digits before the point and digits after it. Without digits after it there is no point. -/
def mantissa (whole part : List Char) : List Char :=
  if part = [] then whole else whole ++ '.' :: part

section Characters

variable {n : Nat}

theorem isDigit_of_mem_toDigits : ∀ c ∈ Nat.toDigits 10 n, c.isDigit = true :=
  fun _ hc => Nat.isDigit_of_mem_toDigits (by decide) (by decide) hc

theorem isDigit_of_mem_zeros : ∀ c ∈ List.replicate n '0', c.isDigit = true := by
  intro c hc
  rw [List.eq_of_mem_replicate hc]
  rfl

theorem natOfDigits_toDigits : natOfDigits (Nat.toDigits 10 n) = n := Nat.ofDigitChars_ten_toDigits

theorem natOfDigits_append_zeros (ds : List Char) :
    natOfDigits (ds ++ List.replicate n '0') = natOfDigits ds * 10 ^ n := by
  rw [natOfDigits, Nat.ofDigitChars_append, Nat.ofDigitChars_replicate_zero, natOfDigits, Nat.mul_comm]

theorem natOfDigits_zeros_append (ds : List Char) :
    natOfDigits (List.replicate n '0' ++ ds) = natOfDigits ds := by
  rw [natOfDigits, Nat.ofDigitChars_append, Nat.ofDigitChars_replicate_zero, Nat.mul_zero, natOfDigits]

end Characters

/-- The first digit of a number is no sign. -/
theorem sign?_toDigits (n : Nat) : sign? (Nat.toDigits 10 n) = (false, Nat.toDigits 10 n) := by
  have h := sign?_signed false (Nat.toDigits_ne_nil (n := n) (b := 10)) isDigit_of_mem_toDigits []
  rwa [List.append_nil] at h

theorem sign?_ofInt (plus : Prop) [Decidable plus] (i : Int) :
    sign? ((if plus ∧ 0 < i then ['+'] else []) ++ ofInt i) =
      (decide (i < 0), Nat.toDigits 10 i.natAbs) := by
  cases i with
  | ofNat n =>
    rw [ofInt]
    split
    next => rfl
    next => exact sign?_toDigits n
  | negSucc n => simp [ofInt, sign?]

theorem exponent?_ofInt (plus : Prop) [Decidable plus] (i : Int) :
    exponent? ('e' :: ((if plus ∧ 0 < i then ['+'] else []) ++ ofInt i)) = some i := by
  have hdigits : (Nat.toDigits 10 i.natAbs).all Char.isDigit = true :=
    List.all_eq_true.2 isDigit_of_mem_toDigits
  have hne : Nat.toDigits 10 i.natAbs ≠ [] := Nat.toDigits_ne_nil
  rw [exponent?, sign?_ofInt]
  dsimp only
  rw [if_pos ⟨.inl rfl, hne, hdigits⟩, natOfDigits_toDigits]
  congr 1
  simp only [decide_eq_true_eq]
  split <;> omega

/-- What a layout writes for digits: digits before the point, digits after it, and either no exponent or
the one of the first digit. -/
structure Layout.Writes (l : Layout) (d : Digits) (whole part ending : List Char) (e : Int) : Prop where
  text : l.digits d = mantissa whole part ++ ending
  whole_ne_nil : whole ≠ []
  whole_digits : ∀ c ∈ whole, c.isDigit = true
  part_digits : ∀ c ∈ part, c.isDigit = true
  value : natOfDigits (whole ++ part) * (10 : ℚ) ^ (e - part.length) = d.value
  range : ending = [] ∧ e = 0 ∧ (l.least ≤ d.point ∨ 0 < d.point) ∨
    ending = 'e' :: ((if l.plus ∧ 0 < e then ['+'] else []) ++ ofInt e) ∧ e = d.point - 1 ∧
      (d.point < l.least ∨ 0 < d.point)

section Writes

variable {l : Layout} {d : Digits} {ds : List Char} (hds : Nat.toDigits 10 d.digits = ds)
include hds

theorem point_eq : d.point = ds.length + d.exponent := by
  rw [← hds]
  rfl

/-- As many digits as there are, whichever of them stand after the point, have the value of the number. -/
theorem value_eq {whole part : List Char} {e : Int} (h : whole ++ part = ds)
    (he : e - part.length = d.exponent) :
    natOfDigits (whole ++ part) * (10 : ℚ) ^ (e - part.length) = d.value := by
  rw [h, he, ← hds, natOfDigits_toDigits, Digits.value]

theorem digits_eq : l.digits d =
    if 0 ≤ d.exponent ∧ d.point ≤ l.greatest then
      ds ++ List.replicate d.exponent.toNat '0' ++ ['.', '0']
    else if 0 < d.point ∧ d.point ≤ l.greatest then
      ds.take d.point.toNat ++ '.' :: ds.drop d.point.toNat
    else if l.least ≤ d.point ∧ d.point ≤ 0 then
      '0' :: '.' :: (List.replicate (-d.point).toNat '0' ++ ds)
    else mantissa (ds.take 1) (ds.drop 1) ++
      'e' :: ((if l.plus ∧ 0 < d.point - 1 then ['+'] else []) ++ ofInt (d.point - 1)) := by
  have hmantissa : mantissa (ds.take 1) (ds.drop 1) =
      if ds.length ≤ 1 then ds else ds.take 1 ++ '.' :: ds.drop 1 := by
    simp only [mantissa, List.drop_eq_nil_iff]
    split
    next hshort => rw [List.take_of_length_le hshort]
    next => rfl
  rw [hmantissa, point_eq hds, Layout.digits, hds]

variable (hlength : 0 < ds.length) (hdigits : ∀ c ∈ ds, c.isDigit = true)
include hlength hdigits

theorem writes_zeros_after (h : 0 ≤ d.exponent ∧ d.point ≤ l.greatest) :
    l.Writes d (ds ++ List.replicate d.exponent.toNat '0') ['0'] [] 0 := by
  have hpoint := point_eq hds
  constructor
  · rw [digits_eq hds, if_pos h]
    simp [mantissa]
  · exact List.append_ne_nil_of_left_ne_nil (List.length_pos_iff.1 hlength) _
  · exact List.forall_mem_append.2 ⟨hdigits, isDigit_of_mem_zeros⟩
  · exact isDigit_of_mem_zeros (n := 1)
  · obtain ⟨k, hk⟩ := Int.eq_ofNat_of_zero_le h.1
    have hzeros : ds ++ List.replicate k '0' ++ ['0'] = ds ++ List.replicate (k + 1) '0' := by
      rw [List.replicate_succ', List.append_assoc]
    rw [hk, Int.toNat_natCast, hzeros, natOfDigits_append_zeros, ← hds, natOfDigits_toDigits,
      Digits.value, hk, zpow_natCast, Nat.cast_mul, Nat.cast_pow, pow_succ]
    norm_num
    ring
  · exact .inl ⟨rfl, rfl, .inr (by omega)⟩

theorem writes_point_within (hfew : ¬(0 ≤ d.exponent ∧ d.point ≤ l.greatest))
    (h : 0 < d.point ∧ d.point ≤ l.greatest) :
    l.Writes d (ds.take d.point.toNat) (ds.drop d.point.toNat) [] 0 := by
  have hpoint := point_eq hds
  have hdrop : ds.drop d.point.toNat ≠ [] := by
    rw [← List.length_pos_iff, List.length_drop]
    omega
  constructor
  · rw [digits_eq hds, if_neg hfew, if_pos h, mantissa, if_neg hdrop, List.append_nil]
  · rw [← List.length_pos_iff, List.length_take]
    omega
  · exact fun c hc => hdigits c (List.mem_of_mem_take hc)
  · exact fun c hc => hdigits c (List.mem_of_mem_drop hc)
  · apply value_eq hds (List.take_append_drop _ ds)
    rw [List.length_drop]
    omega
  · exact .inl ⟨rfl, rfl, .inr h.1⟩

theorem writes_zeros_before (hfew : ¬(0 ≤ d.exponent ∧ d.point ≤ l.greatest))
    (h : l.least ≤ d.point ∧ d.point ≤ 0) :
    l.Writes d ['0'] (List.replicate (-d.point).toNat '0' ++ ds) [] 0 := by
  have hpoint := point_eq hds
  constructor
  · rw [digits_eq hds, if_neg hfew, if_neg (by omega), if_pos h]
    simp [mantissa, List.length_pos_iff.1 hlength]
  · exact List.cons_ne_nil _ _
  · exact isDigit_of_mem_zeros (n := 1)
  · exact List.forall_mem_append.2 ⟨isDigit_of_mem_zeros, hdigits⟩
  · have hexponent : (0 : Int) - (List.replicate (-d.point).toNat '0' ++ ds).length = d.exponent := by
      rw [List.length_append, List.length_replicate]
      omega
    have hzeros : ['0'] ++ (List.replicate (-d.point).toNat '0' ++ ds) =
        List.replicate ((-d.point).toNat + 1) '0' ++ ds := rfl
    rw [hzeros, natOfDigits_zeros_append, hexponent, ← hds, natOfDigits_toDigits, Digits.value]
  · exact .inl ⟨rfl, rfl, .inl h.1⟩

theorem writes_exponent (hfew : ¬(0 ≤ d.exponent ∧ d.point ≤ l.greatest))
    (hmany : ¬(0 < d.point ∧ d.point ≤ l.greatest)) (hsmall : ¬(l.least ≤ d.point ∧ d.point ≤ 0)) :
    l.Writes d (ds.take 1) (ds.drop 1)
      ('e' :: ((if l.plus ∧ 0 < d.point - 1 then ['+'] else []) ++ ofInt (d.point - 1)))
      (d.point - 1) := by
  have hpoint := point_eq hds
  constructor
  · rw [digits_eq hds, if_neg hfew, if_neg hmany, if_neg hsmall]
  · rw [← List.length_pos_iff, List.length_take]
    omega
  · exact fun c hc => hdigits c (List.mem_of_mem_take hc)
  · exact fun c hc => hdigits c (List.mem_of_mem_drop hc)
  · apply value_eq hds (List.take_append_drop _ ds)
    rw [List.length_drop]
    omega
  · exact .inr ⟨rfl, rfl, by omega⟩

end Writes

theorem exists_writes (l : Layout) (d : Digits) :
    ∃ whole part ending e, l.Writes d whole part ending e := by
  have hlength : 0 < (Nat.toDigits 10 d.digits).length := Nat.length_toDigits_pos
  by_cases hfew : 0 ≤ d.exponent ∧ d.point ≤ l.greatest
  · exact ⟨_, _, _, _, writes_zeros_after rfl hlength isDigit_of_mem_toDigits hfew⟩
  by_cases hmany : 0 < d.point ∧ d.point ≤ l.greatest
  · exact ⟨_, _, _, _, writes_point_within rfl hlength isDigit_of_mem_toDigits hfew hmany⟩
  by_cases hsmall : l.least ≤ d.point ∧ d.point ≤ 0
  · exact ⟨_, _, _, _, writes_zeros_before rfl hlength isDigit_of_mem_toDigits hfew hsmall⟩
  · exact ⟨_, _, _, _, writes_exponent rfl hlength isDigit_of_mem_toDigits hfew hmany hsmall⟩

theorem spells_mantissa {whole part ending : List Char} {e : Int} (hne : whole ≠ [])
    (hwhole : ∀ c ∈ whole, c.isDigit = true) (hpart : ∀ c ∈ part, c.isDigit = true)
    (hending : exponent? ending = some e) :
    Spells (mantissa whole part ++ ending)
      (natOfDigits (whole ++ part) * (10 : ℚ) ^ (e - part.length)) := by
  intro negative
  rw [mantissa]
  split
  next hempty =>
    refine ⟨_, numeral?_whole negative hne hwhole hending, rfl, ?_⟩
    simp [hempty, Numeral.value]
  next =>
    rw [List.append_assoc, List.cons_append]
    exact ⟨_, numeral?_pointed negative hne hwhole hending hpart, rfl, rfl⟩

theorem spells_toDigits (n : Nat) : Spells (Nat.toDigits 10 n) n := by
  intro negative
  have hending : exponent? [] = some 0 := rfl
  have hread := numeral?_whole negative (Nat.toDigits_ne_nil (n := n) (b := 10))
    isDigit_of_mem_toDigits hending
  rw [List.append_nil, natOfDigits_toDigits] at hread
  exact ⟨_, hread, rfl, by simp [Numeral.value]⟩

/-- Every layout writes a numeral with the value of the digits. -/
theorem spells_digits (l : Layout) (d : Digits) : Spells (l.digits d) d.value := by
  obtain ⟨whole, part, ending, e, h⟩ := exists_writes l d
  rw [h.text, ← h.value]
  apply spells_mantissa h.whole_ne_nil h.whole_digits h.part_digits
  obtain ⟨rfl, rfl, -⟩ | ⟨rfl, -⟩ := h.range
  · rfl
  · exact exponent?_ofInt _ e

section Hyphen

theorem hyphen_not_mem_of_digits {cs : List Char} (h : ∀ c ∈ cs, c.isDigit = true) : '-' ∉ cs :=
  fun hmem => absurd (h '-' hmem) (by decide)

theorem hyphen_not_mem_mantissa {whole part : List Char} (hwhole : ∀ c ∈ whole, c.isDigit = true)
    (hpart : ∀ c ∈ part, c.isDigit = true) : '-' ∉ mantissa whole part := by
  have hw := hyphen_not_mem_of_digits hwhole
  have hp := hyphen_not_mem_of_digits hpart
  rw [mantissa]
  split
  next => exact hw
  next => simp [hw, hp]

/-- Two texts without a hyphen, with a hyphen between them. -/
def Hyphenated (cs : List Char) : Prop :=
  ∃ before after, before ≠ [] ∧ after ≠ [] ∧ '-' ∉ before ∧ '-' ∉ after ∧ cs = before ++ '-' :: after

theorem ofInt_of_nonneg {i : Int} (h : 0 ≤ i) : ofInt i = Nat.toDigits 10 i.natAbs := by
  obtain ⟨n, rfl⟩ := Int.eq_ofNat_of_zero_le h
  rfl

theorem ofInt_of_neg {i : Int} (h : i < 0) : ofInt i = '-' :: Nat.toDigits 10 i.natAbs := by
  obtain ⟨n, rfl⟩ := Int.eq_negSucc_of_lt_zero h
  rfl

theorem hyphen_not_mem_toDigits (n : Nat) : '-' ∉ Nat.toDigits 10 n :=
  hyphen_not_mem_of_digits isDigit_of_mem_toDigits

variable {l : Layout} {d : Digits}

theorem digits_ne_nil : l.digits d ≠ [] := by
  obtain ⟨whole, part, ending, e, h⟩ := exists_writes l d
  rw [h.text, mantissa]
  split <;> simp [h.whole_ne_nil]

/-- Without an exponent or with one that is not negative there is no hyphen. -/
theorem hyphen_not_mem_digits (hrange : l.least ≤ d.point ∨ 0 < d.point) : '-' ∉ l.digits d := by
  obtain ⟨whole, part, ending, e, h⟩ := exists_writes l d
  have hmantissa := hyphen_not_mem_mantissa h.whole_digits h.part_digits
  have hexponent := hyphen_not_mem_toDigits e.natAbs
  rw [h.text]
  obtain ⟨rfl, -⟩ | ⟨rfl, he, hbeyond⟩ := h.range
  · simpa using hmantissa
  · rw [ofInt_of_nonneg (by omega)]
    split <;> simp [hmantissa, hexponent]

theorem hyphenated_digits (hleast : d.point < l.least) (hpoint : d.point ≤ 0) :
    Hyphenated (l.digits d) := by
  obtain ⟨whole, part, ending, e, h⟩ := exists_writes l d
  have hmantissa := hyphen_not_mem_mantissa h.whole_digits h.part_digits
  have hexponent := hyphen_not_mem_toDigits e.natAbs
  obtain ⟨-, -, hwithin⟩ | ⟨rfl, he, -⟩ := h.range
  · omega
  · refine ⟨mantissa whole part ++ ['e'], _, by simp, Nat.toDigits_ne_nil, ?_, hexponent, ?_⟩
    · simp [hmantissa]
    · rw [h.text, ofInt_of_neg (by omega), if_neg (by omega)]
      simp

end Hyphen

end GenExpr.Decimal
