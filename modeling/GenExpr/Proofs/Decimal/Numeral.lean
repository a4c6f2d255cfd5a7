import GenExpr.Decimal.Numeral
import GenExpr.Proofs.Decimal.Shortest
import GenExpr.Proofs.Expression.Shape

/-!
# What numerals stand for

A numeral is read as the number that its exact value rounds to, and a text that is a sign, digits with at
most one point among them and an exponent is read as the numeral that it spells.
-/

namespace GenExpr.Decimal

open Binary64

/-- The exact value of a numeral without its sign. -/
def Numeral.value (n : Numeral) : ℚ := n.digits * 10 ^ n.exponent

section Nearest

@[simp] theorem negative_ofDecimal (negative : Bool) (digits : Nat) (e : Int) :
    (ofDecimal negative digits e).negative = negative := by
  cases e <;> rfl

theorem magnitude_ofDecimal {negative : Bool} {digits m : Nat} {e : Int} (hm : m ≤ infiniteMagnitude)
    (h : RoundsTo m (digits * 10 ^ e * one)) : (ofDecimal negative digits e).magnitude = m := by
  cases e with
  | ofNat k =>
    refine nearestMagnitude_eq Nat.one_pos hm ?_
    convert h using 1
    simp [tenTo]
  | negSucc k =>
    refine nearestMagnitude_eq (tenTo_pos _) hm ?_
    convert h using 1
    simp only [tenTo, Nat.pow_eq, zpow_negSucc, Nat.cast_mul, Nat.cast_pow, Nat.cast_ofNat]
    ring

theorem one_eq : (one : ℚ) = 2 ^ 1074 := by
  simp only [one, Nat.shiftLeft_eq, Nat.one_mul, Nat.cast_pow, Nat.cast_ofNat]

theorem units_infiniteMagnitude_le : (units infiniteMagnitude : ℚ) ≤ one * one := by
  have hplace : infiniteMagnitude = 2046 * 2 ^ 52 + 2 ^ 52 := by decide
  rw [hplace, units_scaled (by decide) (.inr (Nat.le_refl _)), one_eq]
  simp only [Nat.cast_pow, Nat.cast_ofNat, ← pow_add]
  exact pow_le_pow_right₀ (by norm_num) (by norm_num)

theorem two_one_lt : 2 * (one : ℚ) < 10 ^ 400 := by
  have hdouble : 2 * (one : ℚ) = 2 ^ 1075 := by rw [one_eq, ← pow_succ']
  calc 2 * (one : ℚ) = 2 ^ 1075 := hdouble
    _ < 2 ^ (3 * 400) := pow_lt_pow_right₀ (by norm_num) (by norm_num)
    _ = (2 ^ 3) ^ 400 := pow_mul 2 3 400
    _ ≤ 10 ^ 400 := pow_le_pow_left₀ (by norm_num) (by norm_num) 400

/-- The exponent of a number between two powers of ten is bounded by how many digits stand before it. -/
theorem exponent_bounds {digits k : Nat} {e : Int} (hdigits : 1 ≤ digits)
    (low : 10 ^ (-(k : Int)) ≤ (digits * 10 ^ e : ℚ)) (high : (digits * 10 ^ e : ℚ) ≤ 10 ^ (k : Int)) :
    -(digitCount digits + k : Int) ≤ e ∧ e ≤ digitCount digits + k := by
  have hleast : (1 : ℚ) ≤ digits := by exact_mod_cast hdigits
  have hmost : (digits : ℚ) < 10 ^ (digitCount digits : Int) := by
    rw [zpow_natCast]
    exact_mod_cast lt_pow_digitCount digits
  constructor
  · have hlt : (10 : ℚ) ^ (-(k : Int)) < 10 ^ (digitCount digits + e) := by
      calc (10 : ℚ) ^ (-(k : Int)) ≤ digits * 10 ^ e := low
        _ < 10 ^ (digitCount digits : Int) * 10 ^ e := by gcongr
        _ = 10 ^ (digitCount digits + e) := (zpow_add₀ (by norm_num) _ _).symm
    have := (zpow_lt_zpow_iff_right₀ (by norm_num)).1 hlt
    omega
  · have hle : (10 : ℚ) ^ e ≤ 10 ^ (k : Int) := by
      calc (10 : ℚ) ^ e ≤ digits * 10 ^ e := le_mul_of_one_le_left (by positivity) hleast
        _ ≤ 10 ^ (k : Int) := high
    have := (zpow_le_zpow_iff_right₀ (by norm_num)).1 hle
    omega

variable {n : Numeral} {m : Nat}

theorem one_le_of_roundsTo (hpos : 0 < m) (h : RoundsTo m (n.value * one)) :
    1 ≤ n.value * (2 * one) := by
  have hsum : (1 : ℚ) ≤ units (m - 1) + units m := by
    exact_mod_cast Nat.le_add_left_of_le (units_pos hpos)
  linarith [h.low]

theorem value_le_of_roundsTo (hm : m < infiniteMagnitude) (h : RoundsTo m (n.value * one)) :
    n.value ≤ one := by
  have hunits : (units m : ℚ) ≤ units infiniteMagnitude := by
    exact_mod_cast units_mono (Nat.le_of_lt hm)
  have hnext : (units (m + 1) : ℚ) ≤ units infiniteMagnitude := by
    exact_mod_cast units_mono hm
  have hlimit := units_infiniteMagnitude_le
  have hmul : n.value * one ≤ one * one := by linarith [h.high]
  exact le_of_mul_le_mul_right hmul one_cast_pos

/-- The exponent of a numeral that rounds to a positive finite number is never cut back. -/
theorem magnitude_nearest (hpos : 0 < m) (hm : m < infiniteMagnitude)
    (h : RoundsTo m (n.value * one)) : n.nearest.magnitude = m := by
  have hone := one_cast_pos
  have hleast := one_le_of_roundsTo hpos h
  have hlimit := two_one_lt
  have hdigits : 1 ≤ n.digits := by
    by_contra hzero
    obtain hzero : n.digits = 0 := by omega
    simp [Numeral.value, hzero] at hleast
    linarith
  have hnonneg : 0 ≤ n.value := mul_nonneg (Nat.cast_nonneg _) (by positivity)
  have hlow : (10 : ℚ) ^ (-((400 : Nat) : Int)) ≤ n.value := by
    rw [zpow_neg, zpow_natCast, inv_le_iff_one_le_mul₀ (by positivity)]
    exact hleast.trans (mul_le_mul_of_nonneg_left hlimit.le hnonneg)
  have hhigh : n.value ≤ (10 : ℚ) ^ ((400 : Nat) : Int) := by
    rw [zpow_natCast]
    calc n.value ≤ one := value_le_of_roundsTo hm h
      _ ≤ 2 * one := by linarith
      _ ≤ 10 ^ 400 := hlimit.le
  obtain ⟨hlower, hupper⟩ := exponent_bounds hdigits hlow hhigh
  rw [Nat.cast_ofNat] at hlower hupper
  rw [Numeral.nearest, ← digitCount, min_eq_right hupper, max_eq_right hlower]
  exact magnitude_ofDecimal hm.le h

end Nearest

section Read

theorem numeral?_eq_some {cs body whole part ending : List Char} {negative : Bool} {e : Int}
    (hsign : sign? cs = (negative, body)) (hwhole : body.takeWhile Char.isDigit = whole)
    (hfraction : fraction (body.dropWhile Char.isDigit) = (part, ending)) (hne : whole ≠ [])
    (hending : exponent? ending = some e) :
    numeral? cs = some ⟨negative, natOfDigits (whole ++ part), e - part.length⟩ := by
  simp [numeral?, hsign, hwhole, hfraction, hne, hending]

/-- A sign, as it is written. -/
def signed (negative : Bool) (cs : List Char) : List Char :=
  (if negative then ['-'] else []) ++ cs

theorem sign?_signed (negative : Bool) {cs : List Char} (hne : cs ≠ [])
    (hcs : ∀ c ∈ cs, c.isDigit = true) (rest : List Char) :
    sign? (signed negative (cs ++ rest)) = (negative, cs ++ rest) := by
  cases negative with
  | true => rfl
  | false =>
    obtain ⟨c, r, rfl⟩ := List.exists_cons_of_ne_nil hne
    have hc := hcs c List.mem_cons_self
    rw [signed, sign?.eq_def]
    split
    next heq =>
      obtain ⟨rfl, -⟩ := List.cons.inj heq
      cases hc
    next heq =>
      obtain ⟨rfl, -⟩ := List.cons.inj heq
      cases hc
    next => rfl

theorem apart_of_exponent? {ending : List Char} {e : Int} (h : exponent? ending = some e) :
    ∀ c r, ending = c :: r → c.isDigit = false ∧ c ≠ '.' := by
  intro c r heq
  subst heq
  rw [exponent?] at h
  split at h
  split at h
  next hc =>
    obtain rfl | rfl := hc.1
    · decide
    · decide
  next => cases h

variable {whole part ending : List Char} {e : Int} (negative : Bool) (hne : whole ≠ [])
  (hwhole : ∀ c ∈ whole, c.isDigit = true) (hending : exponent? ending = some e)
include hne hwhole hending

theorem numeral?_whole :
    numeral? (signed negative (whole ++ ending)) = some ⟨negative, natOfDigits whole, e⟩ := by
  have hapart := apart_of_exponent? hending
  have hstop : ∀ c r, ending = c :: r → c.isDigit = false := fun c r h => (hapart c r h).1
  have hfraction : fraction ending = ([], ending) := by
    rw [fraction.eq_def]
    split
    next => exact absurd rfl (hapart _ _ rfl).2
    next => rfl
  have hsign := sign?_signed negative hne hwhole ending
  have htake := Expression.takeWhile_append_stop hwhole hstop
  have hdrop := Expression.dropWhile_append_stop hwhole hstop
  rw [numeral?_eq_some hsign htake (by rw [hdrop, hfraction]) hne hending]
  simp

theorem numeral?_pointed (hpart : ∀ c ∈ part, c.isDigit = true) :
    numeral? (signed negative (whole ++ '.' :: (part ++ ending))) =
      some ⟨negative, natOfDigits (whole ++ part), e - part.length⟩ := by
  have hstop : ∀ c r, ending = c :: r → c.isDigit = false :=
    fun c r h => (apart_of_exponent? hending c r h).1
  have hpoint : ∀ c r, '.' :: (part ++ ending) = c :: r → c.isDigit = false := by
    intro c r h
    obtain ⟨rfl, -⟩ := List.cons.inj h
    rfl
  have hfraction : fraction ('.' :: (part ++ ending)) = (part, ending) := by
    rw [fraction, Expression.takeWhile_append_stop hpart hstop,
      Expression.dropWhile_append_stop hpart hstop]
  have hsign := sign?_signed negative hne hwhole ('.' :: (part ++ ending))
  have htake := Expression.takeWhile_append_stop hwhole hpoint
  have hdrop := Expression.dropWhile_append_stop hwhole hpoint
  exact numeral?_eq_some hsign htake (by rw [hdrop, hfraction]) hne hending

end Read

/-- With either sign in front, a text is a numeral of a given value. -/
def Spells (cs : List Char) (v : ℚ) : Prop :=
  ∀ negative, ∃ n, numeral? (signed negative cs) = some n ∧ n.negative = negative ∧ n.value = v

/-- What is read from a text is the number that its value rounds to. -/
theorem Spells.exists_finite {cs : List Char} {v : ℚ} (h : Spells cs v) (negative : Bool) {m : Nat}
    (hpos : 0 < m) (hm : m < infiniteMagnitude) (hround : RoundsTo m (v * one)) :
    ∃ x, finite? (signed negative cs) = some x ∧ x.negative = negative ∧ x.magnitude = m := by
  obtain ⟨n, hread, hsign, rfl⟩ := h negative
  have hmagnitude : n.nearest.magnitude = m := magnitude_nearest hpos hm hround
  have hfinite : n.nearest.isFinite = true := by
    rw [isFinite, hmagnitude]
    exact decide_eq_true hm
  refine ⟨n.nearest, ?_, ?_, hmagnitude⟩
  · rw [finite?, hread]
    exact if_pos hfinite
  · rw [Numeral.nearest, negative_ofDecimal, hsign]

end GenExpr.Decimal
