import GenExpr.Binary64.Arithmetic

/-!
# Finite numbers

Finite numbers are equal if they have the same place in the order, and then they have the same value. How
far two of them are apart depends on their values alone, so not on the sign of a zero.
-/

namespace GenExpr.Binary64

variable {x y : Binary64}

theorem eq_iff : x.eq y = true ↔ x.isNaN = false ∧ y.isNaN = false ∧ x.rank = y.rank := by
  simp [Binary64.eq, and_assoc]

theorem natAbs_rank (x : Binary64) : x.rank.natAbs = x.magnitude := by
  rw [rank]
  split <;> simp

theorem isFinite_of_eq (h : x.eq y = true) (finite : y.isFinite = true) : x.isFinite = true := by
  rw [isFinite, ← natAbs_rank, (eq_iff.1 h).2.2, natAbs_rank]
  exact finite

theorem value_eq_of_eq (h : x.eq y = true) : x.value = y.value := by
  have hrank := (eq_iff.1 h).2.2
  exact Int.le_antisymm (value_le_of_rank_le (Int.le_of_eq hrank))
    (value_le_of_rank_le (Int.le_of_eq hrank.symm))

theorem isFinite_iff : x.isFinite = true ↔ x.isNaN = false ∧ x.isInfinite = false := by
  simp only [isFinite, isNaN, isInfinite, decide_eq_true_eq, decide_eq_false_iff_not]
  omega

theorem value_neg (x : Binary64) : x.neg.value = -x.value := by
  rw [value, value, neg]
  cases x.negative <;> simp

theorem finite_of_sub (h : (x.sub y).isFinite = true) : x.isFinite = true ∧ y.isFinite = true := by
  have hy : y.neg.isFinite = y.isFinite := rfl
  have hnan : nan.isFinite = false := by decide
  rw [sub, add] at h
  rw [← hy, isFinite_iff, isFinite_iff]
  split at h
  next => exact absurd h (by simp [hnan])
  next hnumbers =>
    rw [Bool.or_eq_true, not_or, Bool.not_eq_true, Bool.not_eq_true] at hnumbers
    split at h
    next hinfinite =>
      split at h
      next => exact absurd h (by simp [hnan])
      next => exact absurd (isFinite_iff.1 h).2 (by simp [hinfinite])
    next hxinfinite =>
      split at h
      next hinfinite => exact absurd (isFinite_iff.1 h).2 (by simp [hinfinite])
      next hyinfinite =>
        rw [Bool.not_eq_true] at hxinfinite hyinfinite
        exact ⟨⟨hnumbers.1, hxinfinite⟩, hnumbers.2, hyinfinite⟩

/-- How far apart two finite numbers are depends on their values alone. -/
theorem magnitude_sub (hx : x.isFinite = true) (hy : y.isFinite = true) :
    (x.sub y).magnitude = nearestMagnitude (x.value - y.value).natAbs 1 := by
  obtain ⟨hxnan, hxinfinite⟩ := isFinite_iff.1 hx
  obtain ⟨hynan, hyinfinite⟩ := (isFinite_iff (x := y.neg)).1 hy
  rw [sub, add, value_neg, ← Int.sub_eq_add_neg, hxnan, hxinfinite, hynan, hyinfinite]
  simp only [Bool.or_self, Bool.false_eq_true, if_false]
  split
  next hzero => rw [hzero]; rfl
  next => rfl

end GenExpr.Binary64
