import GenExpr.Json.Number
import GenExpr.Proofs.Binary64.Finite
import GenExpr.Proofs.Binary64.Nearness
import GenExpr.Proofs.Decimal.Bounds

/-!
# Scaling by powers of ten

A gathered number is rounded, the power of ten is, and what they come to is rounded again. Compared with
rounding once, the result is at most three numbers further, and the same one if neither the gathered
number nor the power of ten needs rounding.
-/

namespace GenExpr

open Binary64

namespace Binary64

/-- The greatest finite magnitude. -/
def greatest : Nat := infiniteMagnitude - 1

/-- A number that is not negative and the one that a quotient of units rounds to. -/
structure IsNearest (x : Binary64) (v : ℚ) : Prop where
  nonnegative : x.negative = false
  finite : x.magnitude < infiniteMagnitude
  roundsTo : RoundsTo x.magnitude v

/-- A number that is not negative and at most three magnitudes from a given one. -/
structure Beside (y : Binary64) (m : Nat) : Prop where
  nonnegative : y.negative = false
  bounded : y.magnitude ≤ infiniteMagnitude
  le_add : y.magnitude ≤ m + 3
  add_ge : m ≤ y.magnitude + 3

variable {x y : Binary64} {v w : ℚ} {num den m : Nat}

theorem greatest_lt : greatest < infiniteMagnitude := by
  have hpos : 0 < infiniteMagnitude := by decide
  rw [greatest]
  omega

theorem isNearest_nearest (hden : 0 < den) (h : (num / den : ℚ) ≤ units greatest) :
    IsNearest (nearest false num den) (num / den) := by
  obtain ⟨m, hm⟩ := exists_roundsTo_div num den
  have hle : m ≤ greatest := hm.le_of_le (roundsTo_units greatest) h
  have hlt : m < infiniteMagnitude := Nat.lt_of_le_of_lt hle greatest_lt
  have hmagnitude : (nearest false num den).magnitude = m := nearestMagnitude_eq hden hlt.le hm
  exact ⟨rfl, by rwa [hmagnitude], by rwa [hmagnitude]⟩

theorem IsNearest.not_special (h : IsNearest x v) : x.isNaN = false ∧ x.isInfinite = false :=
  isFinite_iff.1 (decide_eq_true h.finite)

theorem mul_of_isNearest (hx : IsNearest x v) (hy : IsNearest y w) :
    x.mul y = nearest false (units x.magnitude * units y.magnitude) one := by
  simp [mul, hx.not_special, hy.not_special, hx.nonnegative, hy.nonnegative]

theorem div_of_isNearest (hx : IsNearest x v) (hy : IsNearest y w) (hpos : 0 < y.magnitude) :
    x.div y = nearest false (units x.magnitude * one) (units y.magnitude) := by
  simp [div, hx.not_special, hy.not_special, hx.nonnegative, hy.nonnegative, Nat.ne_of_gt hpos]

theorem beside_nearest {ρ : ℚ} (hden : 0 < den) (hm : m < infiniteMagnitude) (hv : RoundsTo m v)
    (hρ : 1 ≤ ρ) (hsmall : (2 ^ 54 - 1) * (ρ - 1) < 6) (h : Within ρ v (num / den)) :
    Beside (nearest false num den) m := by
  obtain ⟨n, hn⟩ := exists_roundsTo_div num den
  have hsmall : (2 ^ 54 - 1) * (ρ - 1) < 2 * (3 : Nat) := by
    push_cast
    linarith
  have hupper : n ≤ m + 3 := hv.le_add hρ hsmall hn h.right_le
  have hlower : m ≤ n + 3 := hn.le_add hρ hsmall hv h.left_le
  have hmagnitude : (nearest false num den).magnitude = min n infiniteMagnitude :=
    nearestMagnitude_eq_min hden hn
  refine ⟨rfl, ?_, ?_, ?_⟩ <;> rw [hmagnitude] <;> omega

end Binary64

namespace Json

section Operands

variable {n k : Nat}

theorem pow_mul_one_le (hk : k ≤ 308) : 10 ^ k * one ≤ units greatest := by
  have hgreatest : Decimal.tenTo 308 * one ≤ units greatest := by decide +kernel
  obtain ⟨j, hj⟩ := Nat.exists_eq_add_of_le hk
  rw [hj] at hgreatest
  have hpow : 10 ^ k ≤ Decimal.tenTo (k + j) :=
    Nat.pow_le_pow_right (by decide) (Nat.le_add_right k j)
  exact (Nat.mul_le_mul_right one hpow).trans hgreatest

theorem isNearest_whole (hle : n * one ≤ units greatest) :
    IsNearest (nearest false (n * one) 1) (n * one) := by
  have h : IsNearest (nearest false (n * one) 1) ((n * one : Nat) / (1 : Nat)) := by
    apply isNearest_nearest Nat.one_pos
    rw [Nat.cast_one, div_one]
    exact_mod_cast hle
  simpa using h

theorem isNearest_ofInt (hn : n ≤ 10 ^ 17) : IsNearest (ofInt n) (n * one) := by
  have hsign : decide ((n : Int) < 0) = false := decide_eq_false (by omega)
  rw [ofInt, hsign]
  exact isNearest_whole ((Nat.mul_le_mul_right one hn).trans (pow_mul_one_le (by decide)))

theorem isNearest_powerOfTen (hk : k ≤ 308) : IsNearest (powerOfTen k) (10 ^ k * one) := by
  have hpow : powerOfTen k = nearest false (10 ^ k * one) 1 := by
    rw [← Nat.one_mul (10 ^ k)]
    rfl
  rw [hpow]
  exact_mod_cast isNearest_whole (pow_mul_one_le hk)

/-- A whole number of at most 53 bits needs no rounding. -/
theorem units_ofInt (hpos : 0 < n) (hn : n ≤ 2 ^ 53) : units (ofInt n).magnitude = n * one := by
  obtain ⟨j, hj⟩ := exists_units_eq (t := 1074) hpos hn (by decide)
  have hunits : units j = n * one := by rw [hj, one, Nat.one_shiftLeft]
  have hsmall : n ≤ 10 ^ 17 := by omega
  have hnearest := isNearest_ofInt hsmall
  rw [← Nat.cast_mul, ← hunits] at hnearest
  rw [hnearest.roundsTo.units_eq, hunits]

/-- Powers of ten up to 10^22 need no rounding. -/
theorem units_powerOfTen (hk : k ≤ 22) : units (powerOfTen k).magnitude = 10 ^ k * one := by
  have hfive : 5 ^ k ≤ 2 ^ 53 := (Nat.pow_le_pow_right (by decide) hk).trans (by decide)
  obtain ⟨j, hj⟩ := exists_units_eq (t := k + 1074) (Nat.pow_pos (by decide)) hfive (by omega)
  have hunits : units j = 10 ^ k * one := by
    rw [hj, one, Nat.one_shiftLeft, Nat.pow_add, ← Nat.mul_assoc, ← Nat.mul_pow]
  have hnearest := isNearest_powerOfTen (k := k) (by omega)
  have hcast : (10 ^ k * one : ℚ) = (10 ^ k * one : Nat) := by push_cast; rfl
  rw [hcast, ← hunits] at hnearest
  rw [hnearest.roundsTo.units_eq, hunits]

end Operands

section Cases

variable {n : Nat} {e : Int}

theorem lift_of_le {x : Binary64} (h : -308 ≤ e) (count : Nat) : lift count x e = (x, e) := by
  cases count with
  | zero => rfl
  | succ count => rw [lift, if_pos (.inl h)]

theorem scale_of_nonneg (h : 0 ≤ e) (hle : e ≤ 308) :
    scale n e =
      let y := (ofInt n).mul (powerOfTen e.toNat)
      if y.isInfinite then none else some y := by
  simp only [scale, if_neg (Int.not_lt.2 hle), if_pos h]

theorem scale_of_neg (h : e < 0) (hle : -308 ≤ e) :
    scale n e = some ((ofInt n).div (powerOfTen e.natAbs)) := by
  simp only [scale, if_neg (by omega : ¬308 < e), if_neg (Int.not_le.2 h), lift_of_le hle, if_pos hle]

/-- An exponent below -308 is raised once by dividing by 10^308. -/
theorem scale_of_tiny (h : e < -308) (hle : -616 < e) (hpos : 0 < (ofInt n).magnitude) :
    scale n e =
      some (((ofInt n).div (powerOfTen 308)).div (powerOfTen (e + 308).natAbs)) := by
  have hcount : e.natAbs / 308 = 1 := by omega
  have hstay : ¬(-308 ≤ e ∨ (ofInt n).magnitude = 0) := by omega
  have hlift : lift 1 (ofInt n) e = ((ofInt n).div (powerOfTen 308), e + 308) := by
    rw [lift, if_neg hstay, lift]
  simp only [scale, if_neg (by omega : ¬308 < e), if_neg (by omega : ¬0 ≤ e), hcount, hlift,
    if_pos (by omega : -308 ≤ e + 308)]

end Cases

section Error

variable {n k : Nat}

theorem pow_le_one : ((2 ^ 52 : Nat) : ℚ) ≤ one := by
  have hle : 2 ^ 52 ≤ one := by decide +kernel
  exact_mod_cast hle

/-- A factor that is off by half a unit in the 53rd bit. -/
def halfUlp : ℚ := 1 + 1 / (2 * (2 ^ 52 : Nat))

theorem within_of_isNearest {x : Binary64} {a : ℚ} (h : IsNearest x (a * one)) (ha : 1 ≤ a) :
    Within halfUlp (a * one) (units x.magnitude) ∧ 0 < x.magnitude := by
  have hlarge : ((2 ^ 52 : Nat) : ℚ) ≤ a * one := by
    calc ((2 ^ 52 : Nat) : ℚ) ≤ one := pow_le_one
      _ ≤ a * one := le_mul_of_one_le_left one_cast_pos.le ha
  have hone : ((1 : Nat) : ℚ) ≤ (2 ^ 52 : Nat) := by norm_num
  exact ⟨h.roundsTo.within (by decide) (Nat.le_refl _) hlarge,
    h.roundsTo.pos (by rw [← Nat.cast_one]; exact hone.trans hlarge)⟩

theorem within_ofInt (hpos : 0 < n) (hn : n ≤ 10 ^ 17) :
    Within halfUlp (n * one) (units (ofInt n).magnitude) ∧ 0 < (ofInt n).magnitude :=
  within_of_isNearest (isNearest_ofInt hn) (by exact_mod_cast hpos)

theorem within_powerOfTen (hk : k ≤ 308) :
    Within halfUlp (10 ^ k * one) (units (powerOfTen k).magnitude) ∧ 0 < (powerOfTen k).magnitude :=
  within_of_isNearest (isNearest_powerOfTen hk) (one_le_pow₀ (by norm_num))

end Error

section Near

variable {n m : Nat} {e : Int}

theorem value_of_nonneg (n k : Nat) :
    (n * 10 ^ (k : Int) * one : ℚ) = n * one * (10 ^ k * one) / one := by
  have hone := one_cast_pos
  rw [zpow_natCast]
  field_simp

theorem value_of_neg (n : Nat) (h : e < 0) :
    (n * 10 ^ e * one : ℚ) = n * one * one / (10 ^ e.natAbs * one) := by
  have hone := one_cast_pos
  have hexponent : (10 : ℚ) ^ e = (10 ^ e.natAbs)⁻¹ := by
    rw [← zpow_natCast, ← zpow_neg]
    congr 1
    omega
  rw [hexponent]
  field_simp

/-- Scaling by a power of ten that is not below one. -/
theorem beside_of_nonneg (hpos : 0 < n) (hn : n ≤ 10 ^ 17) (h : 0 ≤ e) (hle : e ≤ 308)
    (hm : m < infiniteMagnitude) (hround : RoundsTo m (n * 10 ^ e * one)) :
    Beside ((ofInt n).mul (powerOfTen e.toNat)) m := by
  obtain ⟨k, rfl⟩ := Int.eq_ofNat_of_zero_le h
  have hk : k ≤ 308 := by omega
  obtain ⟨hfirst, -⟩ := within_ofInt hpos hn
  obtain ⟨hpower, -⟩ := within_powerOfTen hk
  rw [Int.toNat_natCast, mul_of_isNearest (isNearest_ofInt hn) (isNearest_powerOfTen hk)]
  refine beside_nearest (ρ := halfUlp * halfUlp * 1) Binary64.one_pos hm hround ?_ ?_ ?_
  · norm_num [halfUlp]
  · norm_num [halfUlp]
  · rw [value_of_nonneg, Nat.cast_mul]
    exact (hfirst.mul hpower).div (.refl one_cast_pos)

/-- Scaling by a power of ten down to 10^-308. -/
theorem beside_of_neg (hpos : 0 < n) (hn : n ≤ 10 ^ 17) (h : e < 0) (hle : -308 ≤ e)
    (hm : m < infiniteMagnitude) (hround : RoundsTo m (n * 10 ^ e * one)) :
    Beside ((ofInt n).div (powerOfTen e.natAbs)) m := by
  have hk : e.natAbs ≤ 308 := by omega
  obtain ⟨hfirst, -⟩ := within_ofInt hpos hn
  obtain ⟨hpower, hpower_pos⟩ := within_powerOfTen hk
  rw [div_of_isNearest (isNearest_ofInt hn) (isNearest_powerOfTen hk) hpower_pos]
  refine beside_nearest (ρ := halfUlp * 1 * halfUlp) (units_pos hpower_pos) hm hround ?_ ?_ ?_
  · norm_num [halfUlp]
  · norm_num [halfUlp]
  · rw [value_of_neg n h, Nat.cast_mul]
    exact (hfirst.mul (.refl one_cast_pos)).div hpower

section Tiny

theorem within_of_le {T U : Nat} (hT : 0 < T) (hU : 0 < U) (hle : 2 ^ 56 * T ≤ (2 ^ 56 + 1) * U)
    (hge : 2 ^ 56 * U ≤ (2 ^ 56 + 1) * T) : Within (1 + 1 / 2 ^ 56) T U := by
  have hle : (2 ^ 56 * T : ℚ) ≤ (2 ^ 56 + 1) * U := by exact_mod_cast hle
  have hge : (2 ^ 56 * U : ℚ) ≤ (2 ^ 56 + 1) * T := by exact_mod_cast hge
  exact ⟨by exact_mod_cast hT, by exact_mod_cast hU, by linarith, by linarith⟩

/-- The number that tiny ones are divided by first is off from 10^308 by less than a part in 2^56. What it
divides has at least 2 * 10^15 units then, and if it is not below three, at least 2^52. -/
theorem powerOfTen_308 :
    2 ^ 56 * (Decimal.tenTo 308 * one) ≤ (2 ^ 56 + 1) * units (powerOfTen 308).magnitude ∧
    2 ^ 56 * units (powerOfTen 308).magnitude ≤ (2 ^ 56 + 1) * (Decimal.tenTo 308 * one) ∧
    one ≤ units (powerOfTen 308).magnitude ∧
    2 * 10 ^ 15 * units (powerOfTen 308).magnitude ≤ one * one ∧
    2 ^ 52 * units (powerOfTen 308).magnitude ≤ 3 * (one * one) := by
  decide +kernel

/-- Dividing by 10^308 first. -/
theorem within_quotient {σ : ℚ} {c : Nat} (hn : n ≤ 10 ^ 17)
    (hfirst : Within σ (n * one) (units (ofInt n).magnitude)) (hpos : 0 < c) (hc : c ≤ 2 ^ 52)
    (hlarge : c * units (powerOfTen 308).magnitude ≤ units (ofInt n).magnitude * one) :
    ∃ v, IsNearest ((ofInt n).div (powerOfTen 308)) v ∧
      Within (σ * 1 * (1 + 1 / 2 ^ 56) * (1 + 1 / (2 * c)))
        (n * one * one / (Decimal.tenTo 308 * one : Nat))
        (units ((ofInt n).div (powerOfTen 308)).magnitude) := by
  obtain ⟨hlow, hhigh, hone, -⟩ := powerOfTen_308
  have hT : 0 < Decimal.tenTo 308 * one := Nat.mul_pos (Decimal.tenTo_pos _) Binary64.one_pos
  obtain ⟨w, hpower⟩ : ∃ w, IsNearest (powerOfTen 308) w :=
    ⟨_, isNearest_powerOfTen (Nat.le_refl _)⟩
  -- the size of the power of ten plays no part from here on
  generalize powerOfTen 308 = p, Decimal.tenTo 308 * one = T at *
  have hunits : 0 < units p.magnitude := Binary64.one_pos.trans_le hone
  have hp : 0 < p.magnitude := Nat.pos_of_ne_zero fun hzero => by simp [hzero, units] at hunits
  have hfinite := (isNearest_ofInt hn).finite
  have hquotient : ((units (ofInt n).magnitude * one : Nat) / units p.magnitude : ℚ) ≤
      units greatest := by
    have hle : units (ofInt n).magnitude * one ≤ units greatest * units p.magnitude :=
      Nat.mul_le_mul (units_mono (Nat.le_sub_one_of_lt hfinite)) hone
    rw [div_le_iff₀ (by exact_mod_cast hunits)]
    exact_mod_cast hle
  have hnearest := isNearest_nearest hunits hquotient
  have hscaled := (hfirst.mul (.refl one_cast_pos)).div (within_of_le hT hunits hlow hhigh)
  have hround : Within (1 + 1 / (2 * c)) (units (ofInt n).magnitude * one / units p.magnitude : ℚ)
      (units (nearest false (units (ofInt n).magnitude * one) (units p.magnitude)).magnitude) := by
    rw [← Nat.cast_mul]
    apply hnearest.roundsTo.within hpos hc
    rw [le_div_iff₀ (by exact_mod_cast hunits)]
    exact_mod_cast hlarge
  rw [div_of_isNearest (isNearest_ofInt hn) hpower hp]
  exact ⟨_, hnearest, hscaled.trans hround⟩

/-- The factor by which the number divided by 10^308 is off is small enough, whether or not the gathered
number was rounded. -/
theorem exists_within_quotient (hpos : 0 < n) (hn : n ≤ 10 ^ 17) :
    ∃ ρ : ℚ, 1 ≤ ρ ∧ (2 ^ 54 - 1) * (ρ - 1) < 6 ∧
      ∃ v, IsNearest ((ofInt n).div (powerOfTen 308)) v ∧
        Within ρ (n * one * one / (Decimal.tenTo 308 * one : Nat))
          (units ((ofInt n).div (powerOfTen 308)).magnitude) := by
  obtain ⟨-, -, -, hleast, hnormal⟩ := powerOfTen_308
  by_cases hshort : n ≤ 2 ^ 53
  · have hunits := units_ofInt hpos hshort
    have hcast : (units (ofInt n).magnitude : ℚ) = n * one := by
      rw [hunits]
      push_cast
      rfl
    have hfirst : Within 1 (n * one) (units (ofInt n).magnitude) := by
      rw [hcast]
      exact .refl (mul_pos (by exact_mod_cast hpos) one_cast_pos)
    have hlarge : 2 * 10 ^ 15 * units (powerOfTen 308).magnitude ≤
        units (ofInt n).magnitude * one := by
      calc 2 * 10 ^ 15 * units (powerOfTen 308).magnitude ≤ one * one := hleast
        _ ≤ n * (one * one) := Nat.le_mul_of_pos_left _ hpos
        _ = units (ofInt n).magnitude * one := by rw [hunits, Nat.mul_assoc]
    exact ⟨_, by norm_num, by norm_num, within_quotient hn hfirst (by decide) (by decide) hlarge⟩
  · have hthree : 3 * one ≤ units (ofInt n).magnitude := by
      have hround := (isNearest_ofInt (n := 3) (by decide)).roundsTo
      have hle : ((3 : Nat) * one : ℚ) ≤ n * one := by
        have hle : 3 * one ≤ n * one := Nat.mul_le_mul_right one (by omega)
        exact_mod_cast hle
      have hmono := units_mono (hround.le_of_le (isNearest_ofInt hn).roundsTo hle)
      rwa [units_ofInt (n := 3) (by decide) (by decide)] at hmono
    have hlarge : 2 ^ 52 * units (powerOfTen 308).magnitude ≤ units (ofInt n).magnitude * one := by
      calc 2 ^ 52 * units (powerOfTen 308).magnitude ≤ 3 * (one * one) := hnormal
        _ = 3 * one * one := (Nat.mul_assoc 3 one one).symm
        _ ≤ units (ofInt n).magnitude * one := Nat.mul_le_mul_right one hthree
    exact ⟨_, by norm_num [halfUlp], by norm_num [halfUlp],
      within_quotient hn (within_ofInt hpos hn).1 (by decide) (Nat.le_refl _) hlarge⟩

/-- Scaling by a power of ten below 10^-308, in two steps. -/
theorem beside_of_tiny (hpos : 0 < n) (hn : n ≤ 10 ^ 17) (h : e < -308) (hle : -324 ≤ e)
    (hm : m < infiniteMagnitude) (hround : RoundsTo m (n * 10 ^ e * one)) :
    Beside (((ofInt n).div (powerOfTen 308)).div (powerOfTen (e + 308).natAbs)) m := by
  obtain ⟨ρ, hρ, hsmall, v, hfirst, hquotient⟩ := exists_within_quotient hpos hn
  obtain ⟨k, hk⟩ : ∃ k, k = (e + 308).natAbs := ⟨_, rfl⟩
  have hone := one_cast_pos
  have hp_pos := (within_powerOfTen (k := k) (by omega)).2
  have hpower : (units (powerOfTen k).magnitude : ℚ) = 10 ^ k * one := by
    rw [units_powerOfTen (by omega)]
    push_cast
    rfl
  have hvalue : (n * 10 ^ e * one : ℚ) =
      n * one * one / (Decimal.tenTo 308 * one : Nat) * one / units (powerOfTen k).magnitude := by
    have htwo : (10 : ℚ) ^ e = ((Decimal.tenTo 308 : Nat) : ℚ)⁻¹ * (10 ^ k)⁻¹ := by
      have hexponent : e = -((308 : Nat) : Int) + -(k : Int) := by omega
      have hten : ∀ j : Nat, ((Decimal.tenTo j : Nat) : ℚ) = 10 ^ j := by simp [Decimal.tenTo]
      rw [hexponent, zpow_add₀ (by norm_num), zpow_neg, zpow_neg, zpow_natCast, zpow_natCast, hten]
    rw [hpower, htwo, Nat.cast_mul]
    field_simp
  rw [← hk, div_of_isNearest hfirst (isNearest_powerOfTen (by omega)) hp_pos]
  refine beside_nearest (ρ := ρ * 1 * 1) (units_pos hp_pos) hm hround ?_ ?_ ?_
  · linarith
  · linarith
  · have hunits : (0 : ℚ) < units (powerOfTen k).magnitude := by exact_mod_cast units_pos hp_pos
    rw [hvalue, Nat.cast_mul (units _) one]
    exact (hquotient.mul (.refl hone)).div (.refl hunits)

end Tiny

/-- Scaled numbers are at most three numbers from what their exact product rounds to, unless they
overflow. -/
theorem exists_beside (hpos : 0 < n) (hn : n ≤ 10 ^ 17) (lower : -324 ≤ e) (upper : e ≤ 308)
    (hm : m < infiniteMagnitude) (hround : RoundsTo m (n * 10 ^ e * one)) :
    ∃ y, Beside y m ∧ (scale n e = some y ∨ scale n e = none ∧ y.magnitude = infiniteMagnitude) := by
  by_cases hnonneg : 0 ≤ e
  · refine ⟨_, beside_of_nonneg hpos hn hnonneg upper hm hround, ?_⟩
    rw [scale_of_nonneg hnonneg upper]
    dsimp only
    split
    next hinfinite => exact .inr ⟨rfl, of_decide_eq_true hinfinite⟩
    next => exact .inl rfl
  have hneg : e < 0 := Int.not_le.1 hnonneg
  by_cases hsmall : -308 ≤ e
  · exact ⟨_, beside_of_neg hpos hn hneg hsmall hm hround, .inl (scale_of_neg hneg hsmall)⟩
  · have htiny : e < -308 := Int.not_le.1 hsmall
    have hmagnitude := (within_ofInt hpos hn).2
    exact ⟨_, beside_of_tiny hpos hn htiny lower hm hround,
      .inl (scale_of_tiny htiny (by omega) hmagnitude)⟩

/-- Where neither the gathered number nor the power of ten is rounded, scaling rounds once. -/
theorem scale_of_short (hpos : 0 < n) (hn : n ≤ 2 ^ 53) (he : e.natAbs ≤ 22)
    (hm : m < infiniteMagnitude) (hround : RoundsTo m (n * 10 ^ e * one)) :
    ∃ y, scale n e = some y ∧ y.negative = false ∧ y.magnitude = m := by
  have hshort : n ≤ 10 ^ 17 := by omega
  have hfirst := units_ofInt hpos hn
  have hpower : units (powerOfTen e.natAbs).magnitude = 10 ^ e.natAbs * one := units_powerOfTen he
  have hp_pos := (within_powerOfTen (k := e.natAbs) (by omega)).2
  by_cases hnonneg : 0 ≤ e
  · obtain ⟨k, rfl⟩ := Int.eq_ofNat_of_zero_le hnonneg
    rw [Int.natAbs_natCast] at hpower
    have hy : (ofInt n).mul (powerOfTen k) = nearest false (n * one * (10 ^ k * one)) one := by
      rw [mul_of_isNearest (isNearest_ofInt hshort) (isNearest_powerOfTen (by omega)), hfirst, hpower]
    have hmagnitude : ((ofInt n).mul (powerOfTen k)).magnitude = m := by
      rw [hy]
      apply nearestMagnitude_eq Binary64.one_pos hm.le
      rw [value_of_nonneg] at hround
      exact_mod_cast hround
    have hfinite : ((ofInt n).mul (powerOfTen k)).isInfinite = false :=
      decide_eq_false (by omega)
    refine ⟨(ofInt n).mul (powerOfTen k), ?_, by rw [hy]; rfl, hmagnitude⟩
    simp only [scale_of_nonneg hnonneg (by omega), Int.toNat_natCast, hfinite, Bool.false_eq_true,
      if_false]
  · have hy : (ofInt n).div (powerOfTen e.natAbs) =
        nearest false (n * one * one) (10 ^ e.natAbs * one) := by
      rw [div_of_isNearest (isNearest_ofInt hshort) (isNearest_powerOfTen (by omega)) hp_pos, hfirst,
        hpower]
    refine ⟨_, scale_of_neg (by omega) (by omega), by rw [hy]; rfl, ?_⟩
    rw [hy]
    apply nearestMagnitude_eq (Nat.mul_pos (Nat.pow_pos (by decide)) Binary64.one_pos) hm.le
    rw [value_of_neg n (Int.not_le.1 hnonneg)] at hround
    exact_mod_cast hround

end Near

end Json

end GenExpr
