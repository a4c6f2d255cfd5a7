import GenExpr.Proofs.Decimal.Numeral

/-!
# How many shortest digits there are

The shortest digits of a number make a whole number of at most 10^17, with an exponent from -324 to 308:
the grid of 10^-324 is finer than a half of the least positive number, and no finite number reaches
10^309.
-/

namespace GenExpr.Decimal

open Binary64

theorem lt_decimalExponent {num den : Nat} (hnum : 0 < num) (hden : 0 < den) :
    (num : ℚ) < 10 ^ (decimalExponent num den + 1) * den := by
  rw [decimalExponent]
  split
  next h =>
    rw [sub_add_cancel, zpow_natCast]
    exact_mod_cast (Nat.div_lt_iff_lt_mul hden).1 (lt_pow_digitCount (num / den))
  next h =>
    obtain ⟨k, hk⟩ : ∃ k, digitCount ((den - 1) / num) = k + 1 :=
      Nat.exists_eq_succ_of_ne_zero (Nat.ne_of_gt Nat.length_toDigits_pos)
    have hlt : num * 10 ^ k < den := by
      obtain hzero | hpos := Nat.eq_zero_or_pos ((den - 1) / num)
      · rw [hzero] at hk
        obtain rfl : 0 = k := Nat.succ.inj hk
        omega
      · have hle : 10 ^ k ≤ (den - 1) / num := pow_le_of_lt_digitCount hpos (by omega)
        have hmul := (Nat.le_div_iff_mul_le hnum).1 hle
        rw [Nat.mul_comm]
        omega
    have hexponent : -((k + 1 : Nat) : Int) + 1 = -k := by omega
    rw [hk, hexponent, zpow_neg, zpow_natCast, ← div_eq_inv_mul, lt_div_iff₀ (by positivity)]
    exact_mod_cast hlt

section Grid

variable {tie : Tie} {m : Nat} {e : Int} {d : Digits}

/-- What is taken from a grid is the number below, or the one after it. -/
theorem onGrid?_eq_some (h : onGrid? tie m e = some d) :
    d.exponent = e ∧ d.digits ≤ units m * tenTo (-e).toNat / (one * tenTo e.toNat) + 1 := by
  dsimp only [onGrid?] at h
  split at h
  next =>
    obtain rfl := Option.some.inj h
    refine ⟨rfl, ?_⟩
    dsimp only
    split
    next => exact Nat.le_succ _
    next => exact Nat.le_refl _
  next =>
    obtain rfl := Option.some.inj h
    exact ⟨rfl, Nat.le_succ _⟩
  next =>
    obtain rfl := Option.some.inj h
    exact ⟨rfl, Nat.le_refl _⟩
  next => cases h

theorem digits_onGrid?_le (hpos : 0 < m) {n : Nat} (hn : n < 17)
    (h : onGrid? tie m (decimalExponent (units m) one - n) = some d) : d.digits ≤ 10 ^ 17 := by
  obtain ⟨-, hdigits⟩ := onGrid?_eq_some h
  have hbelow := grid_below_le m (decimalExponent (units m) one - n)
  have htop := lt_decimalExponent (units_pos hpos) Binary64.one_pos
  have hstep : (0 : ℚ) < 10 ^ (decimalExponent (units m) one - n) * one :=
    mul_pos (by positivity) one_cast_pos
  have hsplit : (10 : ℚ) ^ (decimalExponent (units m) one + 1) * one =
      10 ^ (n + 1) * (10 ^ (decimalExponent (units m) one - n) * one) := by
    rw [← mul_assoc, ← zpow_natCast, ← zpow_add₀ (by norm_num)]
    congr 2
    push_cast
    ring
  rw [hsplit] at htop
  have hlt := lt_of_mul_lt_mul_right (hbelow.trans_lt htop) hstep.le
  have hlt : units m * tenTo (-(decimalExponent (units m) one - n)).toNat /
      (one * tenTo (decimalExponent (units m) one - n).toNat) < 10 ^ (n + 1) := by
    exact_mod_cast hlt
  have hpow : 10 ^ (n + 1) ≤ 10 ^ 17 := Nat.pow_le_pow_right (by decide) (by omega)
  omega

/-- On a grid that is finer than half a unit the number below rounds to a number. -/
theorem onGrid?_ne_none_of_short (hpos : 0 < m) (short : 2 * (10 ^ e * one : ℚ) < 1) :
    onGrid? tie m e ≠ none := by
  apply onGrid?_ne_none_of_neighbours
  intro q hbelow habove
  have hprev : (units (m - 1) + 1 : ℚ) ≤ units m := by
    exact_mod_cast units_strictMono (by omega : m - 1 < m)
  have hnext : (units m : ℚ) < units (m + 1) := by exact_mod_cast units_lt_succ m
  exact .inl (.of_lt (by linarith) (by linarith))

theorem short_grid : 2 * ((10 : ℚ) ^ (-324 : Int) * one) < 1 := by
  have hlt : 2 * one < 10 ^ 324 := by decide +kernel
  rw [zpow_neg, ← div_eq_inv_mul, ← mul_div_assoc, div_lt_one (by positivity)]
  exact_mod_cast hlt

end Grid

section Trimmed

theorem digits_trimmed_le (n : Nat) (d : Digits) : (d.trimmed n).digits ≤ d.digits := by
  induction n generalizing d with
  | zero => exact Nat.le_refl _
  | succ n ih =>
    rw [Digits.trimmed]
    split
    next => exact (ih _).trans (Nat.div_le_self _ _)
    next => exact Nat.le_refl _

theorem le_exponent_trimmed (n : Nat) (d : Digits) : d.exponent ≤ (d.trimmed n).exponent := by
  induction n generalizing d with
  | zero => exact Int.le_refl _
  | succ n ih =>
    rw [Digits.trimmed]
    split
    next => exact (Int.le_add_one (Int.le_refl _)).trans (ih _)
    next => exact Int.le_refl _

end Trimmed

theorem exists_first_of_findSome? {α : Type} {f : Nat → Option α} {count : Nat} {a : α}
    (h : (List.range count).findSome? f = some a) :
    ∃ n, n < count ∧ f n = some a ∧ ∀ k, k < n → f k = none := by
  obtain ⟨before, n, after, hrange, hfound, hnone⟩ := List.findSome?_eq_some_iff.1 h
  have hsorted : (before ++ n :: after).Pairwise (· < ·) := hrange ▸ List.pairwise_lt_range
  obtain ⟨-, hlater, -⟩ := List.pairwise_append.1 hsorted
  have hn : n < count := List.mem_range.1 (hrange ▸ by simp)
  refine ⟨n, hn, hfound, ?_⟩
  intro k hk
  apply hnone
  have hmem : k ∈ before ++ n :: after := hrange ▸ List.mem_range.2 (hk.trans hn)
  rcases List.mem_append.1 hmem with hbefore | hrest
  · exact hbefore
  rcases List.mem_cons.1 hrest with rfl | hafter
  · omega
  · have := (List.pairwise_cons.1 hlater).1 k hafter
    omega

section Shortest

variable (tie : Tie) {m : Nat} (hpos : 0 < m)
include hpos

theorem digits_shortest_le : (shortest tie m).digits ≤ 10 ^ 17 := by
  rw [shortest]
  split
  next d hd =>
    obtain ⟨n, hn, hgrid, -⟩ := exists_first_of_findSome? hd
    exact (digits_trimmed_le 17 d).trans (digits_onGrid?_le hpos hn hgrid)
  next => exact Nat.zero_le _

/-- The first number on the grid of 10^-324 is taken at the latest. -/
theorem le_exponent_shortest : -324 ≤ (shortest tie m).exponent := by
  rw [shortest]
  split
  next d hd =>
    obtain ⟨n, -, hgrid, hnone⟩ := exists_first_of_findSome? hd
    refine le_trans ?_ (le_exponent_trimmed 17 d)
    rw [(onGrid?_eq_some hgrid).1]
    by_contra hfine
    have htop : -324 ≤ decimalExponent (units m) one := by
      by_contra hsmall
      have hunits : (1 : ℚ) ≤ units m := by exact_mod_cast units_pos hpos
      have hlt := lt_decimalExponent (units_pos hpos) Binary64.one_pos
      have hpow : (10 : ℚ) ^ (decimalExponent (units m) one + 1) ≤ 10 ^ (-324 : Int) :=
        zpow_le_zpow_right₀ (by norm_num) (by omega)
      have hle := mul_le_mul_of_nonneg_right hpow one_cast_pos.le
      linarith [short_grid]
    obtain ⟨k, hk⟩ := Int.eq_ofNat_of_zero_le (by omega : 0 ≤ decimalExponent (units m) one + 324)
    have hexponent : decimalExponent (units m) one - k = -324 := by omega
    have hpassed := hnone k (by omega)
    rw [hexponent] at hpassed
    exact onGrid?_ne_none_of_short hpos short_grid hpassed
  next => decide

theorem exponent_shortest_le (hm : m < infiniteMagnitude) : (shortest tie m).exponent ≤ 308 := by
  have hround := roundsTo_shortest tie hpos
  have hdigits : (1 : ℚ) ≤ (shortest tie m).digits := by
    exact_mod_cast digits_shortest_pos tie hpos
  have hunits : (units m : ℚ) ≤ units infiniteMagnitude := by
    exact_mod_cast units_mono (Nat.le_of_lt hm)
  have hnext : (units (m + 1) : ℚ) ≤ units infiniteMagnitude := by exact_mod_cast units_mono hm
  have hlimit : (units infiniteMagnitude : ℚ) < (10 : ℚ) ^ (309 : Int) * one := by
    have hlt : units infiniteMagnitude < 10 ^ 309 * one := by decide +kernel
    exact_mod_cast hlt
  have hvalue : (shortest tie m).value < (10 : ℚ) ^ (309 : Int) :=
    lt_of_mul_lt_mul_right (by linarith [hround.high]) one_cast_pos.le
  have hpow : (10 : ℚ) ^ (shortest tie m).exponent < 10 ^ (309 : Int) := by
    calc (10 : ℚ) ^ (shortest tie m).exponent ≤ (shortest tie m).value :=
          le_mul_of_one_le_left (by positivity) hdigits
      _ < 10 ^ (309 : Int) := hvalue
  have hlt := (zpow_lt_zpow_iff_right₀ (by norm_num)).1 hpow
  omega

end Shortest

end GenExpr.Decimal
