import GenExpr.Proofs.Binary64.Rounding
import Mathlib.Algebra.Order.Archimedean.Basic
import Mathlib.Tactic.GCongr
import Mathlib.Tactic.NormNum

/-!
# How far apart roundings are

Every quotient rounds to one number, from 2^52 units on with a relative error of at most 2^-53. Errors of
several roundings are put together as factors, and numbers whose quotients differ by a small factor are
few numbers apart.
-/

namespace GenExpr.Binary64

section Exists

theorem le_units (m : Nat) : m ≤ units m := units_strictMono.le_apply

theorem exists_roundsTo {v : ℚ} (h : 0 ≤ v) : ∃ m, RoundsTo m v := by
  have hbeyond : ∃ n, v < units n := by
    obtain ⟨n, hn⟩ := exists_nat_gt v
    exact ⟨n, hn.trans_le (by exact_mod_cast le_units n)⟩
  classical
  obtain ⟨m, hfirst⟩ : ∃ m, Nat.find hbeyond = m + 1 := by
    apply Nat.exists_eq_succ_of_ne_zero
    intro hzero
    have hlt := Nat.find_spec hbeyond
    rw [hzero] at hlt
    exact absurd hlt (not_lt.2 (by simpa [units] using h))
  have habove : v < units (m + 1) := hfirst ▸ Nat.find_spec hbeyond
  have hbelow : (units m : ℚ) ≤ v := not_lt.1 (Nat.find_min hbeyond (by omega))
  have hprev : (units (m - 1) : ℚ) ≤ units m := by exact_mod_cast units_mono (Nat.sub_le m 1)
  have hnext : (units (m + 1) : ℚ) < units (m + 1 + 1) := by exact_mod_cast units_lt_succ (m + 1)
  have hstep : (units m : ℚ) < units (m + 1) := by exact_mod_cast units_lt_succ m
  obtain hlt | heq | hgt := lt_trichotomy (2 * v) (units m + units (m + 1))
  · refine ⟨m, by linarith, hlt.le, fun hodd => ⟨?_, hlt⟩⟩
    have : (units (m - 1) : ℚ) < units m := by exact_mod_cast units_strictMono (by omega)
    linarith
  · -- the midpoint belongs to the even one of the two neighbours
    by_cases heven : m % 2 = 0
    · exact ⟨m, by linarith, heq.le, fun hodd => by omega⟩
    · refine ⟨m + 1, ?_, by linarith, fun hodd => by omega⟩
      rw [Nat.add_sub_cancel]
      exact heq.ge
  · refine ⟨m + 1, ?_, by linarith, fun _ => ⟨?_, by linarith⟩⟩
    · rw [Nat.add_sub_cancel]
      exact hgt.le
    · rwa [Nat.add_sub_cancel]

theorem exists_roundsTo_div (num den : Nat) : ∃ m, RoundsTo m (num / den) :=
  exists_roundsTo (div_nonneg (Nat.cast_nonneg num) (Nat.cast_nonneg den))

variable {m n : Nat} {v w : ℚ}

theorem RoundsTo.le_of_le (hv : RoundsTo m v) (hw : RoundsTo n w) (h : v ≤ w) : m ≤ n :=
  Nat.le_of_not_lt fun hlt => absurd (hw.lt_of_lt hv hlt) (not_lt.2 h)

theorem RoundsTo.unique (hm : RoundsTo m v) (hn : RoundsTo n v) : m = n :=
  Nat.le_antisymm (hm.le_of_le hn le_rfl) (hn.le_of_le hm le_rfl)

theorem RoundsTo.pos (h : RoundsTo m v) (hv : 1 ≤ v) : 0 < m := by
  have hone : RoundsTo 1 1 := by simpa [units] using roundsTo_units 1
  exact hone.le_of_le h hv

end Exists

section Exact

/-- A number of at most 53 bits times a power of two that is large enough is exact. -/
theorem exists_units_eq {n t : Nat} (hpos : 0 < n) (hn : n ≤ 2 ^ 53) (ht : 52 ≤ t) :
    ∃ m, units m = n * 2 ^ t := by
  obtain hlt | rfl := Nat.lt_or_eq_of_le hn
  · have hlog : n.log2 ≤ 52 := Nat.le_of_lt_succ ((Nat.log2_lt (Nat.ne_of_gt hpos)).2 hlt)
    obtain ⟨j, hj⟩ := Nat.exists_eq_add_of_le hlog
    have hleast : 2 ^ 52 ≤ n * 2 ^ j := by
      rw [hj, Nat.pow_add]
      exact Nat.mul_le_mul_right _ (Nat.log2_self_le (Nat.ne_of_gt hpos))
    have hmost : n * 2 ^ j ≤ 2 ^ 53 := by
      have hnext : n ≤ 2 ^ (n.log2 + 1) := Nat.le_of_lt Nat.lt_log2_self
      calc n * 2 ^ j ≤ 2 ^ (n.log2 + 1) * 2 ^ j := Nat.mul_le_mul_right _ hnext
        _ = 2 ^ 53 := by rw [← Nat.pow_add]; congr 1; omega
    refine ⟨(t - j) * 2 ^ 52 + n * 2 ^ j, ?_⟩
    rw [units_scaled hmost (.inr hleast), Nat.mul_assoc, ← Nat.pow_add]
    congr 2
    omega
  · exact ⟨t * 2 ^ 52 + 2 ^ 53, units_scaled (Nat.le_refl _) (.inr (by decide))⟩

theorem RoundsTo.units_eq {m k : Nat} (h : RoundsTo m (units k)) : units m = units k := by
  rw [h.unique (roundsTo_units k)]

end Exact

/-- Two positive numbers differ by a factor of at most `ρ`. -/
structure Within (ρ a b : ℚ) : Prop where
  left_pos : 0 < a
  right_pos : 0 < b
  left_le : a ≤ ρ * b
  right_le : b ≤ ρ * a

namespace Within

variable {ρ σ a b c d : ℚ}

theorem factor_pos (h : Within ρ a b) : 0 < ρ :=
  pos_of_mul_pos_left (h.left_pos.trans_le h.left_le) h.right_pos.le

theorem refl (ha : 0 < a) : Within 1 a a := ⟨ha, ha, by rw [one_mul], by rw [one_mul]⟩

theorem trans (h : Within ρ a b) (h' : Within σ b c) : Within (ρ * σ) a c where
  left_pos := h.left_pos
  right_pos := h'.right_pos
  left_le := by
    calc a ≤ ρ * b := h.left_le
      _ ≤ ρ * (σ * c) := mul_le_mul_of_nonneg_left h'.left_le h.factor_pos.le
      _ = ρ * σ * c := by ring
  right_le := by
    calc c ≤ σ * b := h'.right_le
      _ ≤ σ * (ρ * a) := mul_le_mul_of_nonneg_left h.right_le h'.factor_pos.le
      _ = ρ * σ * a := by ring

theorem mul (h : Within ρ a b) (h' : Within σ c d) : Within (ρ * σ) (a * c) (b * d) where
  left_pos := mul_pos h.left_pos h'.left_pos
  right_pos := mul_pos h.right_pos h'.right_pos
  left_le := by
    calc a * c ≤ ρ * b * (σ * d) :=
          mul_le_mul h.left_le h'.left_le h'.left_pos.le (mul_pos h.factor_pos h.right_pos).le
      _ = ρ * σ * (b * d) := by ring
  right_le := by
    calc b * d ≤ ρ * a * (σ * c) :=
          mul_le_mul h.right_le h'.right_le h'.right_pos.le (mul_pos h.factor_pos h.left_pos).le
      _ = ρ * σ * (a * c) := by ring

theorem inv (h : Within ρ a b) : Within ρ a⁻¹ b⁻¹ where
  left_pos := inv_pos.2 h.left_pos
  right_pos := inv_pos.2 h.right_pos
  left_le := by
    rw [← div_eq_mul_inv, le_div_iff₀ h.right_pos, ← div_eq_inv_mul, div_le_iff₀ h.left_pos]
    exact h.right_le
  right_le := by
    rw [← div_eq_mul_inv, le_div_iff₀ h.left_pos, ← div_eq_inv_mul, div_le_iff₀ h.right_pos]
    exact h.left_le

theorem div (h : Within ρ a b) (h' : Within σ c d) : Within (ρ * σ) (a / c) (b / d) := by
  rw [div_eq_mul_inv, div_eq_mul_inv]
  exact h.mul h'.inv

theorem of_abs_sub_le {ε : ℚ} (ha : 0 < a) (hb : 0 < b) (hab : |b - a| ≤ ε * a)
    (hba : |b - a| ≤ ε * b) : Within (1 + ε) a b where
  left_pos := ha
  right_pos := hb
  left_le := by linarith [neg_abs_le (b - a)]
  right_le := by linarith [le_abs_self (b - a)]

end Within

section Error

variable {m n : Nat} {v w : ℚ}

/-- Rounding is off by at most half a unit, or by at most 2^-53 of the number. -/
theorem RoundsTo.abs_sub_le (h : RoundsTo m v) :
    |(units m : ℚ) - v| ≤ 1 / 2 ∨
      2 ^ 53 * |(units m : ℚ) - v| ≤ units m ∧ 2 ^ 53 * |(units m : ℚ) - v| ≤ v := by
  obtain ⟨low, high, -⟩ := h
  obtain ⟨s, f, rfl, hf, hs⟩ := exists_scaled m
  have hunits : (units (s * 2 ^ 52 + f) : ℚ) = f * 2 ^ s := by
    exact_mod_cast units_scaled (Nat.le_of_lt hf) hs
  have hsucc : (units (s * 2 ^ 52 + f + 1) : ℚ) = (f + 1) * 2 ^ s := by
    exact_mod_cast units_succ hf hs
  rw [hunits] at low ⊢
  rw [hunits, hsucc] at high
  obtain rfl | hspos := Nat.eq_zero_or_pos s
  · have hprev : (f : ℚ) ≤ units (0 * 2 ^ 52 + f - 1) + 1 := by
      have := le_units (0 * 2 ^ 52 + f - 1)
      exact_mod_cast (by omega : f ≤ units (0 * 2 ^ 52 + f - 1) + 1)
    refine .inl (abs_le.2 ⟨?_, ?_⟩)
    · linarith
    · linarith
  have hnormal : 2 ^ 52 ≤ f := hs.resolve_left (Nat.ne_of_gt hspos)
  have hunit : (0 : ℚ) < 2 ^ s := by positivity
  have hleast : (2 : ℚ) ^ 52 * 2 ^ s ≤ f * 2 ^ s := by
    gcongr
    exact_mod_cast hnormal
  refine .inr ?_
  obtain hle | hlt := le_total (f * 2 ^ s : ℚ) v
  · rw [abs_of_nonpos (by linarith)]
    exact ⟨by linarith, by linarith⟩
  rw [abs_of_nonneg (by linarith)]
  obtain ⟨hpower, hpred⟩ | ⟨hpower, t, rfl, hpred⟩ := units_pred (by omega) hf hs
  · have hpred : (units (s * 2 ^ 52 + f - 1) : ℚ) = (f - 1) * 2 ^ s := by
      rw [hpred, Nat.cast_mul, Nat.cast_pred (by omega)]
      push_cast
      rfl
    have hgreater : (2 : ℚ) ^ 52 * 2 ^ s ≤ (f - 1) * 2 ^ s := by
      gcongr
      rw [le_sub_iff_add_le]
      exact_mod_cast (hpower.resolve_left (Nat.ne_of_gt hspos))
    rw [hpred] at low
    exact ⟨by linarith, by linarith⟩
  · -- below a power of two the steps are half as long
    have hpred : (units ((t + 1) * 2 ^ 52 + f - 1) : ℚ) = (2 ^ 53 - 1) * 2 ^ t := by
      rw [hpred]
      norm_num
    have hpower : (f : ℚ) = 2 ^ 52 := by exact_mod_cast hpower
    have hdouble : (2 : ℚ) ^ (t + 1) = 2 * 2 ^ t := pow_succ' 2 t
    have hunit : (0 : ℚ) < 2 ^ t := by positivity
    rw [hpred, hpower, hdouble] at low
    rw [hpower, hdouble]
    exact ⟨by linarith, by linarith⟩

/-- From a number of units on that is at most 2^52, rounding changes a number by a factor that is half a
unit away from one. -/
theorem RoundsTo.within {c : Nat} (hpos : 0 < c) (hc : c ≤ 2 ^ 52) (h : RoundsTo m v) (hv : c ≤ v) :
    Within (1 + 1 / (2 * c)) v (units m) := by
  have hcunits : units c = c := by
    obtain hlt | rfl := Nat.lt_or_eq_of_le hc
    · exact if_pos hlt
    · decide
  have hround : RoundsTo c c := by simpa [hcunits] using roundsTo_units c
  have hm : (c : ℚ) ≤ units m := by
    have hle := units_mono (hround.le_of_le h hv)
    rw [hcunits] at hle
    exact_mod_cast hle
  have hcpos : (0 : ℚ) < c := by exact_mod_cast hpos
  have hsmall : (c : ℚ) ≤ 2 ^ 52 := by exact_mod_cast hc
  -- half a unit, or the 2^53rd part, of a number that is at least `c` is at most the part `1 / 2c` of it
  have hpart : ∀ w : ℚ, c ≤ w → (|(units m : ℚ) - v| ≤ 1 / 2 ∨ 2 ^ 53 * |(units m : ℚ) - v| ≤ w) →
      |(units m : ℚ) - v| ≤ 1 / (2 * c) * w := by
    intro w hw herror
    rw [one_div, ← div_eq_inv_mul, le_div_iff₀ (by positivity)]
    have hnonneg := abs_nonneg ((units m : ℚ) - v)
    obtain herror | herror := herror
    · calc |(units m : ℚ) - v| * (2 * c) ≤ 1 / 2 * (2 * c) := by gcongr
        _ ≤ w := by linarith
    · calc |(units m : ℚ) - v| * (2 * c) ≤ |(units m : ℚ) - v| * (2 * 2 ^ 52) := by gcongr
        _ ≤ w := by linarith
  exact .of_abs_sub_le (hcpos.trans_le hv) (hcpos.trans_le hm)
    (hpart v hv (h.abs_sub_le.imp_right And.right)) (hpart _ hm (h.abs_sub_le.imp_right And.left))

/-- From a number on, the steps to the next one are at least as long as its own. -/
theorem units_add_le {s f k : Nat} (hs : s = 0 ∨ 2 ^ 52 ≤ f) (hk : s * 2 ^ 52 + f ≤ k) (j : Nat) :
    units k + j * 2 ^ s ≤ units (k + j) := by
  induction j with
  | zero => simp
  | succ j ih =>
    obtain ⟨t, g, hplace, hg, ht⟩ := exists_scaled (k + j)
    have hexponent : 2 ^ s ≤ 2 ^ t := Nat.pow_le_pow_right (by decide) (by omega)
    have hstep : units (k + j + 1) = units (k + j) + 2 ^ t := by
      rw [hplace, units_succ hg ht, units_scaled (Nat.le_of_lt hg) ht, Nat.succ_mul]
    rw [← Nat.add_assoc, hstep, Nat.succ_mul]
    omega

/-- Numbers whose quotients differ by a small factor are few numbers apart. -/
theorem RoundsTo.le_add {ρ : ℚ} {N : Nat} (hρ : 1 ≤ ρ) (hN : (2 ^ 54 - 1) * (ρ - 1) < 2 * N)
    (hv : RoundsTo m v) (hw : RoundsTo n w) (h : w ≤ ρ * v) : n ≤ m + N := by
  by_contra hfar
  obtain ⟨s, f, rfl, hf, hs⟩ := exists_scaled m
  have hunit : (0 : ℚ) < 2 ^ s := by positivity
  have hhigh := hv.high
  have hlow := hw.low
  have hunits : (units (s * 2 ^ 52 + f) : ℚ) = f * 2 ^ s := by
    exact_mod_cast units_scaled (Nat.le_of_lt hf) hs
  have hsucc : (units (s * 2 ^ 52 + f + 1) : ℚ) = (f + 1) * 2 ^ s := by
    exact_mod_cast units_succ hf hs
  -- `n` and the number before it are at least `N` steps beyond `m` and the number after it
  have hprev : (f * 2 ^ s + N * 2 ^ s : ℚ) ≤ units (n - 1) := by
    have hle := (units_add_le hs (Nat.le_refl _) N).trans
      (units_mono (by omega : s * 2 ^ 52 + f + N ≤ n - 1))
    rw [← hunits]
    exact_mod_cast hle
  have hself : ((f + 1) * 2 ^ s + N * 2 ^ s : ℚ) ≤ units n := by
    have hle := (units_add_le hs (Nat.le_succ _) N).trans
      (units_mono (by omega : s * 2 ^ 52 + f + 1 + N ≤ n))
    rw [← hsucc]
    exact_mod_cast hle
  have hmost : (f : ℚ) + 1 ≤ 2 ^ 53 := by exact_mod_cast hf
  have hv_le : 2 * v ≤ (2 ^ 54 - 1) * 2 ^ s := by
    calc 2 * v ≤ f * 2 ^ s + (f + 1) * 2 ^ s := by linarith
      _ = (2 * (f + 1) - 1) * 2 ^ s := by ring
      _ ≤ (2 * 2 ^ 53 - 1) * 2 ^ s := by gcongr
      _ = (2 ^ 54 - 1) * 2 ^ s := by ring
  have hgap : 2 * N * 2 ^ s ≤ (ρ - 1) * (2 * v) := by linarith
  have hless : (ρ - 1) * (2 * v) < 2 * N * 2 ^ s := by
    calc (ρ - 1) * (2 * v) ≤ (ρ - 1) * ((2 ^ 54 - 1) * 2 ^ s) :=
          mul_le_mul_of_nonneg_left hv_le (by linarith)
      _ = (2 ^ 54 - 1) * (ρ - 1) * 2 ^ s := by ring
      _ < 2 * N * 2 ^ s := mul_lt_mul_of_pos_right hN hunit
  exact absurd hgap (not_le.2 hless)

end Error

end GenExpr.Binary64
