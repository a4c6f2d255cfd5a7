import GenExpr.Binary64.Arithmetic
import Mathlib.Algebra.Order.Field.Rat
import Mathlib.Order.Monotone.Basic
import Mathlib.Tactic.Linarith
import Mathlib.Tactic.Positivity
import Mathlib.Tactic.Ring

/-!
# Which reals round to a number

A magnitude is a significand of at most 53 bits with an exponent of two. The reals that round to it are
those between the midpoints to its two neighbours, the midpoints themselves included if the magnitude is
even. Everything here is in units of 2^-1074.
-/

namespace GenExpr.Binary64

section Significand

variable {s f : Nat}

/-- A significand of 53 bits stands for the same as one of 52 bits with the next exponent, so the
greatest significand may be one too large. -/
theorem units_scaled (hf : f ≤ 2 ^ 53) (hs : s = 0 ∨ 2 ^ 52 ≤ f) :
    units (s * 2 ^ 52 + f) = f * 2 ^ s := by
  simp only [units, Nat.shiftLeft_eq, Nat.shiftRight_eq_div_pow, Nat.one_mul]
  split
  next hsmall =>
    obtain rfl : s = 0 := by omega
    omega
  next hlarge =>
    obtain hf | rfl := Nat.lt_or_eq_of_le hf
    · have hexponent : (s * 2 ^ 52 + f) / 2 ^ 52 - 1 = s := by omega
      have hfraction : 2 ^ 52 + (s * 2 ^ 52 + f) % 2 ^ 52 = f := by omega
      rw [hexponent, hfraction]
    · have hexponent : (s * 2 ^ 52 + 2 ^ 53) / 2 ^ 52 - 1 = s + 1 := by omega
      have hfraction : (s * 2 ^ 52 + 2 ^ 53) % 2 ^ 52 = 0 := by omega
      rw [hexponent, hfraction, Nat.pow_succ]
      omega

theorem exists_scaled (m : Nat) : ∃ s f, m = s * 2 ^ 52 + f ∧ f < 2 ^ 53 ∧ (s = 0 ∨ 2 ^ 52 ≤ f) := by
  by_cases hm : m < 2 ^ 52
  · exact ⟨0, m, by omega, by omega, .inl rfl⟩
  · exact ⟨m / 2 ^ 52 - 1, 2 ^ 52 + m % 2 ^ 52, by omega, by omega, .inr (by omega)⟩

theorem units_succ (hf : f < 2 ^ 53) (hs : s = 0 ∨ 2 ^ 52 ≤ f) :
    units (s * 2 ^ 52 + f + 1) = (f + 1) * 2 ^ s := by
  rw [Nat.add_assoc, units_scaled (s := s) (f := f + 1) (by omega) (by omega)]

/-- The number before one whose significand is a power of two is half as far away as the one after. -/
theorem units_pred (hpos : 0 < f) (hf : f < 2 ^ 53) (hs : s = 0 ∨ 2 ^ 52 ≤ f) :
    (s = 0 ∨ 2 ^ 52 < f) ∧ units (s * 2 ^ 52 + f - 1) = (f - 1) * 2 ^ s ∨
      f = 2 ^ 52 ∧ ∃ t, s = t + 1 ∧ units (s * 2 ^ 52 + f - 1) = (2 ^ 53 - 1) * 2 ^ t := by
  by_cases hpower : s ≠ 0 ∧ f = 2 ^ 52
  · obtain ⟨t, rfl⟩ := Nat.exists_eq_succ_of_ne_zero hpower.1
    have hplace : (t + 1) * 2 ^ 52 + f - 1 = t * 2 ^ 52 + (2 ^ 53 - 1) := by omega
    refine .inr ⟨hpower.2, t, rfl, ?_⟩
    rw [hplace, units_scaled (s := t) (f := 2 ^ 53 - 1) (by omega) (.inr (by omega))]
  · have hplace : s * 2 ^ 52 + f - 1 = s * 2 ^ 52 + (f - 1) := by omega
    refine .inl ⟨by omega, ?_⟩
    rw [hplace, units_scaled (s := s) (f := f - 1) (by omega) (by omega)]

end Significand

theorem units_lt_succ (m : Nat) : units m < units (m + 1) := by
  obtain ⟨s, f, rfl, hf, hs⟩ := exists_scaled m
  rw [units_succ hf hs, units_scaled (Nat.le_of_lt hf) hs]
  exact Nat.mul_lt_mul_of_pos_right (Nat.lt_succ_self f) (Nat.two_pow_pos s)

theorem units_strictMono : StrictMono units := strictMono_nat_of_lt_succ units_lt_succ

theorem units_pos {m : Nat} (h : 0 < m) : 0 < units m :=
  Nat.lt_of_le_of_lt (Nat.zero_le _) (units_strictMono h)

theorem one_cast_pos : (0 : ℚ) < one := by exact_mod_cast Binary64.one_pos

/-- A quotient is within a half of a whole number, exactly a half away only from an even one. -/
structure Nearest (num den n : Nat) : Prop where
  low : 2 * n * den ≤ 2 * num + den
  high : 2 * num ≤ 2 * n * den + den
  odd : n % 2 = 1 → 2 * n * den < 2 * num + den ∧ 2 * num < 2 * n * den + den

theorem Nearest.roundHalfEven_eq {num den n : Nat} (hden : 0 < den) (h : Nearest num den n) :
    roundHalfEven num den = n := by
  obtain ⟨low, high, odd⟩ := h
  have hdiv : den * (num / den) + num % den = num := Nat.div_add_mod num den
  have hrest : num % den < den := Nat.mod_lt num hden
  have hle : num / den ≤ n := by
    by_contra hlt
    have : (n + 1) * den ≤ num / den * den := Nat.mul_le_mul_right den (by omega)
    have := Nat.div_mul_le_self num den
    linarith
  have hge : n ≤ num / den + 1 := by
    by_contra hlt
    have : (num / den + 2) * den ≤ n * den := Nat.mul_le_mul_right den (by omega)
    linarith
  rw [roundHalfEven]
  obtain hq | hq : num / den = n ∨ n = num / den + 1 := by omega
  · rw [hq] at hdiv ⊢
    have : 2 * n * den = 2 * (den * n) := by ring
    split_ifs <;> omega
  · rw [hq] at low high odd ⊢
    have : 2 * (num / den + 1) * den = 2 * (den * (num / den)) + 2 * den := by ring
    split_ifs <;> omega

/-- The exponent with which a quotient is rounded. -/
theorem shift_eq {q s : Nat} (low : s = 0 ∨ 2 ^ (52 + s) ≤ q) (high : q < 2 ^ (53 + s)) :
    q.log2 + 1 - 53 = s := by
  by_cases hq : q = 0
  · obtain rfl : s = 0 := low.resolve_right (by simp [hq])
    rw [hq]
    rfl
  have hlt : q.log2 < 53 + s := (Nat.log2_lt hq).2 high
  obtain rfl | hle := low
  · omega
  · have := (Nat.le_log2 hq).2 hle
    omega

/-- A quotient with an exponent for which 53 bits are enough rounds to the significand nearest to it. -/
theorem nearestMagnitude_scaled {num den s f : Nat} (hden : 0 < den)
    (least : s = 0 ∨ 2 ^ 52 * (den * 2 ^ s) ≤ num) (greatest : num < 2 ^ 53 * (den * 2 ^ s))
    (h : Nearest num (den * 2 ^ s) f) :
    nearestMagnitude num den = min (s * 2 ^ 52 + f) infiniteMagnitude := by
  have hlog : (num / den).log2 + 1 - 53 = s := by
    apply shift_eq
    · apply least.imp_right
      intro hle
      rw [Nat.le_div_iff_mul_le hden, Nat.pow_add]
      linarith
    · rw [Nat.div_lt_iff_lt_mul hden, Nat.pow_add]
      linarith
  have hround := h.roundHalfEven_eq (Nat.mul_pos hden (Nat.two_pow_pos s))
  simp only [nearestMagnitude, hlog, Nat.shiftLeft_eq, hround]

/-- A number of units lies between the midpoints to the two neighbours of a magnitude. The midpoints
themselves belong to the even magnitudes. -/
structure RoundsTo (m : Nat) (v : ℚ) : Prop where
  low : (units (m - 1) + units m : ℚ) ≤ 2 * v
  high : 2 * v ≤ units m + units (m + 1)
  odd : m % 2 = 1 → (units (m - 1) + units m : ℚ) < 2 * v ∧ 2 * v < units m + units (m + 1)

theorem roundsTo_div_iff {m num den : Nat} (hden : 0 < den) :
    RoundsTo m (num / den) ↔
      (units (m - 1) + units m) * den ≤ 2 * num ∧ 2 * num ≤ (units m + units (m + 1)) * den ∧
        (m % 2 = 1 → (units (m - 1) + units m) * den < 2 * num ∧
          2 * num < (units m + units (m + 1)) * den) := by
  have hpos : (0 : ℚ) < den := by exact_mod_cast hden
  have hle (a : Nat) : (a : ℚ) ≤ 2 * (num / den) ↔ a * den ≤ 2 * num := by
    rw [← mul_div_assoc, le_div_iff₀ hpos]
    exact_mod_cast Iff.rfl
  have hge (a : Nat) : 2 * (num / den : ℚ) ≤ a ↔ 2 * num ≤ a * den := by
    rw [← mul_div_assoc, div_le_iff₀ hpos]
    exact_mod_cast Iff.rfl
  simp only [← hle, ← hge, ← not_le]
  push_cast
  exact ⟨fun h => ⟨h.low, h.high, by simpa using h.odd⟩, fun h => ⟨h.1, h.2.1, by simpa using h.2.2⟩⟩

/-- A quotient that rounds to a magnitude is nearest to its significand, or lies below a power of two and
is nearest to the same number with the exponent before. -/
theorem exists_nearest {m num den : Nat} (hden : 0 < den) (h : RoundsTo m (num / den)) :
    ∃ s f, m = s * 2 ^ 52 + f ∧ (s = 0 ∨ 2 ^ 52 * (den * 2 ^ s) ≤ num) ∧
      num < 2 ^ 53 * (den * 2 ^ s) ∧ Nearest num (den * 2 ^ s) f := by
  obtain ⟨low, high, odd⟩ := (roundsTo_div_iff hden).1 h
  obtain ⟨s, f, rfl, hf, hs⟩ := exists_scaled m
  rw [units_succ hf hs, units_scaled (Nat.le_of_lt hf) hs] at high odd
  rw [units_scaled (Nat.le_of_lt hf) hs] at low
  have hparity : (s * 2 ^ 52 + f) % 2 = f % 2 := by omega
  rw [hparity] at odd
  have hunit : 0 < den * 2 ^ s := Nat.mul_pos hden (Nat.two_pow_pos s)
  have hhigh : 2 * num ≤ 2 * f * (den * 2 ^ s) + den * 2 ^ s := by linarith
  have hgreatest : num < 2 ^ 53 * (den * 2 ^ s) := by
    have : (f + 1) * (den * 2 ^ s) ≤ 2 ^ 53 * (den * 2 ^ s) := Nat.mul_le_mul_right _ hf
    linarith
  by_cases hfrom : f * (den * 2 ^ s) ≤ num
  · refine ⟨s, f, rfl, ?_, hgreatest, by linarith, hhigh, ?_⟩
    · exact hs.imp_right fun hnormal => (Nat.mul_le_mul_right _ hnormal).trans hfrom
    · exact fun hodd => ⟨by linarith, by linarith [(odd hodd).2]⟩
  have hpos : 0 < f := by
    by_contra hzero
    obtain rfl : f = 0 := by omega
    simp at hfrom
  obtain ⟨hnormal, hpred⟩ | ⟨rfl, t, rfl, hpred⟩ := units_pred hpos hf hs
  · obtain ⟨n, rfl⟩ := Nat.exists_eq_succ_of_ne_zero (Nat.ne_of_gt hpos)
    rw [hpred, Nat.succ_sub_one] at low odd
    refine ⟨s, n + 1, rfl, ?_, hgreatest, by linarith, hhigh, ?_⟩
    · apply hnormal.imp_right
      intro hlt
      have : 2 ^ 52 * (den * 2 ^ s) ≤ n * (den * 2 ^ s) :=
        Nat.mul_le_mul_right _ (Nat.le_of_lt_succ hlt)
      linarith
    · exact fun hodd => ⟨by linarith [(odd hodd).1], by linarith [(odd hodd).2]⟩
  · have hdouble : 2 ^ (t + 1) = 2 * 2 ^ t := Nat.pow_succ'
    have hmost : 2 ^ 53 - 1 = 9007199254740991 := rfl
    have hunit : 0 < den * 2 ^ t := Nat.mul_pos hden (Nat.two_pow_pos t)
    rw [hpred, hdouble, hmost] at low
    rw [hdouble] at hfrom
    refine ⟨t, 2 ^ 53, by omega, .inr (by linarith), by linarith, by linarith, by linarith, ?_⟩
    exact fun hodd => absurd hodd (by decide)

theorem nearestMagnitude_eq_min {m num den : Nat} (hden : 0 < den) (h : RoundsTo m (num / den)) :
    nearestMagnitude num den = min m infiniteMagnitude := by
  obtain ⟨s, f, rfl, hleast, hgreatest, hnearest⟩ := exists_nearest hden h
  exact nearestMagnitude_scaled hden hleast hgreatest hnearest

/-- Each magnitude is the nearest one to the quotients that round to it. -/
theorem nearestMagnitude_eq {m num den : Nat} (hden : 0 < den) (hm : m ≤ infiniteMagnitude)
    (h : RoundsTo m (num / den)) : nearestMagnitude num den = m := by
  rw [nearestMagnitude_eq_min hden h, Nat.min_eq_left hm]

theorem roundsTo_units (m : Nat) : RoundsTo m (units m) := by
  have hprev : (units (m - 1) : ℚ) ≤ units m := by exact_mod_cast units_mono (Nat.sub_le m 1)
  have hnext : (units m : ℚ) < units (m + 1) := by exact_mod_cast units_lt_succ m
  refine ⟨by linarith, by linarith, ?_⟩
  intro hodd
  have hlt : (units (m - 1) : ℚ) < units m := by exact_mod_cast units_strictMono (by omega)
  exact ⟨by linarith, by linarith⟩

/-- What rounds to a lesser number is less. -/
theorem RoundsTo.lt_of_lt {m n : Nat} {v w : ℚ} (hv : RoundsTo m v) (hw : RoundsTo n w) (h : m < n) :
    v < w := by
  have hunits : (units m : ℚ) ≤ units (n - 1) := by exact_mod_cast units_mono (by omega)
  have hnext : (units (m + 1) : ℚ) ≤ units n := by exact_mod_cast units_mono h
  have hhigh := hv.high
  have hlow := hw.low
  obtain hsame | hapart : n = m + 1 ∨ m < n - 1 := by omega
  · -- the midpoint between two neighbours belongs to the even one of them
    obtain hodd | hodd : m % 2 = 1 ∨ n % 2 = 1 := by omega
    · linarith [(hv.odd hodd).2]
    · linarith [(hw.odd hodd).1]
  · have hlt : (units m : ℚ) < units (n - 1) := by exact_mod_cast units_strictMono hapart
    linarith

theorem RoundsTo.of_lt {m : Nat} {v : ℚ} (low : (units (m - 1) + units m : ℚ) < 2 * v)
    (high : 2 * v < units m + units (m + 1)) : RoundsTo m v :=
  ⟨low.le, high.le, fun _ => ⟨low, high⟩⟩

/-- Of the two neighbours of a number on a grid of seventeen digits one rounds to it: the steps of such
a grid are shorter than those of the significand. -/
theorem roundsTo_of_neighbours {m q : Nat} {step : ℚ} (hpos : 0 < m)
    (fine : 10 ^ 16 * step ≤ units m) (below : q * step ≤ units m)
    (above : units m < (q + 1) * step) : RoundsTo m (q * step) ∨ RoundsTo m ((q + 1) * step) := by
  obtain ⟨s, f, rfl, hf, hs⟩ := exists_scaled m
  have hfpos : 0 < f := by
    by_contra hzero
    omega
  have hunit : (0 : ℚ) < 2 ^ s := by positivity
  have hunits : (units (s * 2 ^ 52 + f) : ℚ) = f * 2 ^ s := by
    exact_mod_cast units_scaled (Nat.le_of_lt hf) hs
  have hsucc : (units (s * 2 ^ 52 + f + 1) : ℚ) = (f + 1) * 2 ^ s := by
    exact_mod_cast units_succ hf hs
  have hmost : (f : ℚ) ≤ 2 ^ 53 := by exact_mod_cast Nat.le_of_lt hf
  rw [hunits] at fine below above
  obtain ⟨-, hpred⟩ | ⟨hpower, -⟩ := units_pred hfpos hf hs
  · have hpred : (units (s * 2 ^ 52 + f - 1) : ℚ) = (f - 1) * 2 ^ s := by
      rw [hpred, Nat.cast_mul, Nat.cast_pred hfpos]
      push_cast
      rfl
    have hstep : step < 2 ^ s := by
      have := mul_le_mul_of_nonneg_right hmost hunit.le
      linarith
    by_cases hnear : (2 * f - 1) * 2 ^ s < 2 * (q * step)
    · refine .inl (.of_lt ?_ ?_)
      · rw [hpred, hunits]
        linarith
      · rw [hunits, hsucc]
        linarith
    · refine .inr (.of_lt ?_ ?_)
      · rw [hpred, hunits]
        linarith
      · rw [hunits, hsucc]
        linarith
  · -- below a power of two the neighbour is nearer, but the step to the one above is short enough
    have hprev : (units (s * 2 ^ 52 + f - 1) : ℚ) ≤ f * 2 ^ s := by
      rw [← hunits]
      exact_mod_cast units_mono (Nat.sub_le _ _)
    have hpower : (f : ℚ) = 2 ^ 52 := by exact_mod_cast hpower
    rw [hpower] at fine
    refine .inr (.of_lt ?_ ?_)
    · rw [hunits]
      linarith
    · rw [hunits, hsucc]
      linarith

end GenExpr.Binary64
