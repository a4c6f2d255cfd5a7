import GenExpr.Decimal.Shortest
import GenExpr.Proofs.Binary64.Rounding
import Mathlib.Algebra.Order.Field.Power
import Mathlib.Tactic.GCongr
import Mathlib.Tactic.NormNum

/-!
# Shortest digits round back

The shortest digits of a number are digits that round to it. Seventeen digits are enough for every
number: they are finer than the distance between two neighbours.
-/

namespace GenExpr.Decimal

open Binary64

/-- What digits stand for. -/
def Digits.value (d : Digits) : ℚ := d.digits * 10 ^ d.exponent

theorem ten_zpow_eq (e : Int) : (10 : ℚ) ^ e = tenTo e.toNat / tenTo (-e).toNat := by
  cases e with
  | ofNat n => simp [tenTo]
  | negSucc n => simp [tenTo, zpow_negSucc]

theorem lt_pow_digitCount (n : Nat) : n < 10 ^ digitCount n :=
  (Nat.length_toDigits_le_iff (by decide) Nat.length_toDigits_pos).1 (Nat.le_refl _)

theorem pow_le_of_lt_digitCount {n k : Nat} (hn : 0 < n) (h : k < digitCount n) : 10 ^ k ≤ n := by
  cases k with
  | zero => exact hn
  | succ k =>
    by_contra hlt
    exact absurd ((Nat.length_toDigits_le_iff (by decide) (Nat.succ_pos k)).2 (Nat.lt_of_not_le hlt))
      (Nat.not_le_of_lt h)

theorem decimalExponent_le {num den : Nat} (hnum : 0 < num) (hden : 0 < den) :
    (10 : ℚ) ^ decimalExponent num den * den ≤ num := by
  rw [decimalExponent]
  split
  next h =>
    obtain ⟨k, hk⟩ : ∃ k, digitCount (num / den) = k + 1 :=
      Nat.exists_eq_succ_of_ne_zero (Nat.ne_of_gt Nat.length_toDigits_pos)
    have hle : 10 ^ k ≤ num / den := pow_le_of_lt_digitCount (Nat.div_pos h hden) (by omega)
    have hmul : 10 ^ k * den ≤ num := (Nat.le_div_iff_mul_le hden).1 hle
    rw [hk, Nat.cast_succ, add_sub_cancel_right, zpow_natCast]
    exact_mod_cast hmul
  next h =>
    have hlt := (Nat.div_lt_iff_lt_mul hnum).1 (lt_pow_digitCount ((den - 1) / num))
    have hmul : den ≤ num * 10 ^ digitCount ((den - 1) / num) := by
      rw [Nat.mul_comm]
      omega
    rw [zpow_neg, zpow_natCast, inv_mul_le_iff₀ (by positivity), mul_comm]
    exact_mod_cast hmul

/-- The executable test decides whether digits round to a magnitude. -/
theorem roundsTo_iff {m digits : Nat} {e : Int} :
    roundsTo m digits e = true ↔ RoundsTo m (digits * 10 ^ e * one) := by
  have hvalue : (digits * 10 ^ e * one : ℚ) =
      (digits * tenTo e.toNat * one : Nat) / (tenTo (-e).toNat : Nat) := by
    rw [ten_zpow_eq]
    push_cast
    ring
  have hdouble : 2 * digits * tenTo e.toNat * one = 2 * (digits * tenTo e.toNat * one) := by ring
  rw [hvalue, roundsTo_div_iff (tenTo_pos _), roundsTo, hdouble]
  split
  next heven => simp [heven]
  next hodd =>
    have hodd : m % 2 = 1 := by omega
    simp only [Bool.and_eq_true, decide_eq_true_eq, hodd]
    exact ⟨fun h => ⟨h.1.le, h.2.le, fun _ => h⟩, fun h => h.2.2 trivial⟩

/-- The neighbours of a number on a decimal grid are taken only if they round to it. -/
theorem roundsTo_of_onGrid? {tie : Tie} {m : Nat} {e : Int} {d : Digits}
    (h : onGrid? tie m e = some d) : RoundsTo m (d.value * one) := by
  dsimp only [onGrid?] at h
  split at h
  next hbelow habove =>
    obtain rfl := Option.some.inj h
    dsimp only [Digits.value]
    split_ifs
    · exact roundsTo_iff.1 hbelow
    · exact roundsTo_iff.1 habove
  next hbelow _ =>
    obtain rfl := Option.some.inj h
    exact roundsTo_iff.1 hbelow
  next habove =>
    obtain rfl := Option.some.inj h
    exact roundsTo_iff.1 habove
  next => cases h

section Grid

variable {tie : Tie} {m : Nat} {e : Int}

theorem grid_step_eq (e : Int) : (10 : ℚ) ^ e * one = (one * tenTo e.toNat) / tenTo (-e).toNat := by
  rw [ten_zpow_eq]
  ring

/-- The number on a decimal grid that the two neighbours are counted from is the one below. -/
theorem grid_below_le (m : Nat) (e : Int) :
    (units m * tenTo (-e).toNat / (one * tenTo e.toNat) : Nat) * (10 ^ e * one : ℚ) ≤ units m := by
  have hscale : (0 : ℚ) < tenTo (-e).toNat := by exact_mod_cast tenTo_pos _
  rw [grid_step_eq, ← mul_div_assoc, div_le_iff₀ hscale]
  exact_mod_cast Nat.div_mul_le_self _ _

theorem lt_grid_above (m : Nat) (e : Int) :
    (units m : ℚ) <
      ((units m * tenTo (-e).toNat / (one * tenTo e.toNat) : Nat) + 1) * (10 ^ e * one) := by
  have hden : 0 < one * tenTo e.toNat := Nat.mul_pos Binary64.one_pos (tenTo_pos _)
  have hscale : (0 : ℚ) < tenTo (-e).toNat := by exact_mod_cast tenTo_pos _
  rw [grid_step_eq, ← mul_div_assoc, lt_div_iff₀ hscale]
  exact_mod_cast Nat.lt_mul_of_div_lt (Nat.lt_succ_self _) hden

/-- A grid on which one of the two neighbours of each number rounds to it. -/
theorem onGrid?_ne_none_of_neighbours
    (h : ∀ q : Nat, q * (10 ^ e * one : ℚ) ≤ units m → units m < (q + 1) * (10 ^ e * one : ℚ) →
      RoundsTo m (q * (10 ^ e * one)) ∨ RoundsTo m ((q + 1) * (10 ^ e * one))) :
    onGrid? tie m e ≠ none := by
  let below := units m * tenTo (-e).toNat / (one * tenTo e.toNat)
  have hround : roundsTo m below e = true ∨ roundsTo m (below + 1) e = true := by
    rw [roundsTo_iff, roundsTo_iff, mul_assoc, mul_assoc, Nat.cast_succ]
    exact h below (grid_below_le m e) (lt_grid_above m e)
  dsimp only [onGrid?]
  intro hnone
  split at hnone
  next => cases hnone
  next => cases hnone
  next => cases hnone
  next hleft hright =>
    obtain h | h := hround
    · exact absurd h (by simp [below, hleft])
    · exact absurd h (by simp [below, hright])

/-- The grid of seventeen digits is fine enough. -/
theorem onGrid?_ne_none (hpos : 0 < m) (fine : 10 ^ 16 * (10 ^ e * one : ℚ) ≤ units m) :
    onGrid? tie m e ≠ none :=
  onGrid?_ne_none_of_neighbours fun _ => roundsTo_of_neighbours hpos fine

end Grid

theorem value_trimmed (n : Nat) (d : Digits) : (d.trimmed n).value = d.value := by
  induction n generalizing d with
  | zero => rfl
  | succ n ih =>
    rw [Digits.trimmed]
    split
    next h =>
      obtain ⟨k, hk⟩ := Nat.dvd_of_mod_eq_zero h.1
      rw [ih, Digits.value, Digits.value, hk, Nat.mul_div_cancel_left k (by decide),
        zpow_add₀ (by norm_num)]
      push_cast
      ring
    next => rfl

/-- The shortest digits of a number round to it. -/
theorem roundsTo_shortest (tie : Tie) {m : Nat} (hpos : 0 < m) :
    RoundsTo m ((shortest tie m).value * one) := by
  rw [shortest]
  split
  next d hd =>
    obtain ⟨n, -, hgrid⟩ := List.exists_of_findSome?_eq_some hd
    rw [value_trimmed]
    exact roundsTo_of_onGrid? hgrid
  next hnone =>
    have hgrid := List.findSome?_eq_none_iff.1 hnone 16 (by decide)
    refine absurd hgrid (onGrid?_ne_none hpos ?_)
    have htop := decimalExponent_le (units_pos hpos) Binary64.one_pos
    rw [zpow_sub₀ (by norm_num)]
    convert htop using 1
    push_cast
    ring

theorem digits_shortest_pos (tie : Tie) {m : Nat} (hpos : 0 < m) : 0 < (shortest tie m).digits := by
  have hsum : (0 : ℚ) < units (m - 1) + units m := by
    exact_mod_cast Nat.add_pos_right _ (units_pos hpos)
  have hlow := (roundsTo_shortest tie hpos).low
  by_contra hzero
  obtain hzero : (shortest tie m).digits = 0 := by omega
  rw [Digits.value, hzero, Nat.cast_zero, zero_mul, zero_mul, mul_zero] at hlow
  linarith

/-- Where the point stands: a number is `0.d₁d₂… * 10 ^ point`. -/
def Digits.point (d : Digits) : Int := digitCount d.digits + d.exponent

theorem pow_le_value {d : Digits} (hpos : 0 < d.digits) : (10 : ℚ) ^ (d.point - 1) ≤ d.value := by
  obtain ⟨k, hk⟩ : ∃ k, digitCount d.digits = k + 1 :=
    Nat.exists_eq_succ_of_ne_zero (Nat.ne_of_gt Nat.length_toDigits_pos)
  have hpoint : d.point - 1 = k + d.exponent := by
    rw [Digits.point, hk]
    omega
  have hle : (10 : ℚ) ^ k ≤ d.digits := by
    exact_mod_cast pow_le_of_lt_digitCount hpos (by omega)
  rw [hpoint, zpow_add₀ (by norm_num), zpow_natCast, Digits.value]
  gcongr

theorem value_lt_pow (d : Digits) : d.value < (10 : ℚ) ^ d.point := by
  have hlt : (d.digits : ℚ) < 10 ^ digitCount d.digits := by
    exact_mod_cast lt_pow_digitCount d.digits
  rw [Digits.point, zpow_add₀ (by norm_num), zpow_natCast, Digits.value]
  gcongr

end GenExpr.Decimal
