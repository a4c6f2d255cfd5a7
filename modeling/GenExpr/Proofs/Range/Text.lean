import GenExpr.Proofs.Binary64.Finite
import GenExpr.Proofs.Decimal.Text
import GenExpr.Proofs.Range

/-!
# The text of a range of numbers

The text of a range is read back as an equal range if its bounds are plain: zero or at least 10^-5. The
text of a smaller bound has an exponent, whose hyphen is taken for the one between the bounds, so the
text of such a range is no range.
-/

namespace GenExpr

section Bound

open Expression Range Decimal

theorem isBound_signed {cs : List Char} (hne : cs ≠ []) (hhyphen : '-' ∉ cs) (negative : Bool) :
    IsBound isBoundChar (signed negative cs) := by
  refine ⟨cs, hne, ?_, ?_⟩
  · intro c hc
    exact decide_eq_true fun heq => hhyphen (heq ▸ hc)
  · cases negative with
    | true => exact .inr rfl
    | false => exact .inl rfl

/-- A text with two hyphens that end bounds is no range. -/
theorem splitRange_eq_none {lo hi rest : List Char} (hlo : IsBound isBoundChar lo)
    (hhi : IsBound isBoundChar hi) :
    splitRange isBoundChar (lo ++ '-' :: (hi ++ '-' :: rest)) = none := by
  have hp : isBoundChar '-' = false := rfl
  have hstop : ∀ r c s, '-' :: r = c :: s → isBoundChar c = false := by
    intro r c s h
    obtain ⟨rfl, -⟩ := List.cons.inj h
    exact hp
  have hfirst := bound_of_isBound hp hlo (hstop (hi ++ '-' :: rest))
  have hsecond := bound_of_isBound hp hhi (hstop rest)
  simp only [splitRange, hfirst, hsecond]

variable {x : Binary64} (finite : x.isFinite = true)
include finite

theorem isBound_text (plain : x.IsPlain) : IsBound isBoundChar (text x) := by
  obtain hzero | hpos := Nat.eq_zero_or_pos x.magnitude
  · rw [text_of_zero hzero]
    exact isBound_signed (List.cons_ne_nil _ _) (by decide) false
  · obtain ⟨cs, v, htext, -, -, hplain, -⟩ := exists_text_eq finite hpos
    obtain ⟨hne, hhyphen⟩ := hplain plain
    rw [htext]
    exact isBound_signed hne hhyphen x.negative

theorem text_of_not_plain (small : ¬x.IsPlain) :
    ∃ lo hi, IsBound isBoundChar lo ∧ IsBound isBoundChar hi ∧ text x = lo ++ '-' :: hi := by
  have hpos : 0 < x.magnitude := Nat.pos_of_ne_zero fun hzero => small (.inl hzero)
  obtain ⟨cs, v, htext, -, -, -, hsmall⟩ := exists_text_eq finite hpos
  obtain ⟨before, after, hbefore, hafter, hbefore', hafter', rfl⟩ := hsmall small
  refine ⟨signed x.negative before, after, isBound_signed hbefore hbefore' _,
    isBound_signed hafter hafter' false, ?_⟩
  rw [htext, signed, signed, List.append_assoc]

end Bound

namespace NumberRange

/-- Bounds equal to those of a range make a range. -/
theorem ofBounds?_of_eq (r : NumberRange) {lo hi : Binary64} (hlo : lo.eq r.min = true)
    (hhi : hi.eq r.max = true) : ∃ r', ofBounds? lo hi = some r' ∧ r'.min = lo ∧ r'.max = hi := by
  obtain ⟨hmax, hmin⟩ := Binary64.finite_of_sub r.finite_width
  obtain ⟨hlo_nan, -, hlo_rank⟩ := Binary64.eq_iff.1 hlo
  obtain ⟨hhi_nan, -, hhi_rank⟩ := Binary64.eq_iff.1 hhi
  have hle : lo.le hi = true := by
    have h := r.min_le_max
    rw [Binary64.le, Bool.and_eq_true] at h
    simp [Binary64.le, hlo_nan, hhi_nan, hlo_rank, hhi_rank, of_decide_eq_true h.2]
  have hwidth : (hi.sub lo).isFinite = true := by
    have h := r.finite_width
    rw [Binary64.isFinite, Binary64.magnitude_sub hmax hmin] at h
    rw [Binary64.isFinite, Binary64.magnitude_sub (Binary64.isFinite_of_eq hhi hmax)
      (Binary64.isFinite_of_eq hlo hmin), Binary64.value_eq_of_eq hhi, Binary64.value_eq_of_eq hlo]
    exact h
  exact ⟨⟨lo, hi, hle, hwidth⟩, dif_pos ⟨hle, hwidth⟩, rfl, rfl⟩

theorem parse_text_of_plain (r : NumberRange) (hmin : r.min.IsPlain) (hmax : r.max.IsPlain) :
    ∃ r', NumberRange.parse r.text = .ok r' ∧ r'.min.eq r.min = true ∧ r'.max.eq r.max = true := by
  obtain ⟨hmax_finite, hmin_finite⟩ := Binary64.finite_of_sub r.finite_width
  obtain ⟨lo, hlo, hlo_eq⟩ := Decimal.exists_finite?_text hmin_finite
  obtain ⟨hi, hhi, hhi_eq⟩ := Decimal.exists_finite?_text hmax_finite
  obtain ⟨r', hr', rfl, rfl⟩ := ofBounds?_of_eq r hlo_eq hhi_eq
  have hbounds : Range.ofBounds? (Decimal.text r.min) (Decimal.text r.max) = some (.number r') := by
    rw [Range.ofBounds?.eq_def, hlo, hhi]
    simp only [hr', Option.map_some]
  have hread : Range.read? r.text.toList = some (.number r') :=
    Range.read?_eq_some_iff.2 ⟨_, _, isBound_text hmin_finite hmin, isBound_text hmax_finite hmax,
      by rw [text, String.toList_ofList], hbounds⟩
  exact ⟨r', by rw [NumberRange.parse, hread], hlo_eq, hhi_eq⟩

theorem parse_text_of_not_plain (r : NumberRange) (small : ¬(r.min.IsPlain ∧ r.max.IsPlain)) :
    NumberRange.parse r.text = .error (.invalidRange r.text) := by
  obtain ⟨hmax_finite, hmin_finite⟩ := Binary64.finite_of_sub r.finite_width
  obtain ⟨lo, hi, rest, hlo, hhi, htext⟩ : ∃ lo hi rest, Expression.IsBound Range.isBoundChar lo ∧
      Expression.IsBound Range.isBoundChar hi ∧ r.text.toList = lo ++ '-' :: (hi ++ '-' :: rest) := by
    rw [text, String.toList_ofList]
    by_cases hmin : r.min.IsPlain
    · obtain ⟨lo, hi, hlo, -, heq⟩ := text_of_not_plain hmax_finite fun hmax => small ⟨hmin, hmax⟩
      exact ⟨_, lo, hi, isBound_text hmin_finite hmin, hlo, by rw [heq]⟩
    · obtain ⟨lo, hi, hlo, hhi, heq⟩ := text_of_not_plain hmin_finite hmin
      exact ⟨lo, hi, _, hlo, hhi, by rw [heq, List.append_assoc, List.cons_append]⟩
  have hread : Range.read? r.text.toList = none := by
    rw [Range.read?, Range.bounds?, htext, splitRange_eq_none hlo hhi]
  rw [NumberRange.parse, hread]

/-- The text of a range is read back as an equal range if each of its bounds is zero or at least 10^-5,
whatever their signs. The text of any other range is no range. -/
theorem text_reads_back (r : NumberRange) :
    (r.min.IsPlain ∧ r.max.IsPlain → ∃ r', NumberRange.parse r.text = .ok r' ∧
      r'.min.eq r.min = true ∧ r'.max.eq r.max = true) ∧
    (¬(r.min.IsPlain ∧ r.max.IsPlain) →
      NumberRange.parse r.text = .error (.invalidRange r.text)) :=
  ⟨fun h => r.parse_text_of_plain h.1 h.2, r.parse_text_of_not_plain⟩

theorem texts_beside_the_limit :
    (∃ r r' : NumberRange, r.text = "-0.00001-1.5e21" ∧ NumberRange.parse r.text = .ok r' ∧
      r'.min.eq r.min = true ∧ r'.max.eq r.max = true) ∧
    ∃ r : NumberRange, r.text = "-1.5e21--9.9e-6" ∧
      NumberRange.parse r.text = .error (.invalidRange r.text) := by
  let plain : NumberRange :=
    ⟨.ofDecimal true 1 (-5), .ofDecimal false 15 20, by decide +kernel, by decide +kernel⟩
  let small : NumberRange :=
    ⟨.ofDecimal true 15 20, .ofDecimal true 99 (-7), by decide +kernel, by decide +kernel⟩
  have hplain : plain.min.IsPlain ∧ plain.max.IsPlain := by decide +kernel
  have hsmall : ¬(small.min.IsPlain ∧ small.max.IsPlain) := by decide +kernel
  obtain ⟨r', hparse, hmin, hmax⟩ := (text_reads_back plain).1 hplain
  exact ⟨⟨plain, r', by decide +kernel, hparse, hmin, hmax⟩,
    small, by decide +kernel, (text_reads_back small).2 hsmall⟩

/-- The text of a range from one ten-millionth up is no range. -/
theorem small_bound_is_cut :
    ∃ r, NumberRange.parse "0.0000001-1" = .ok r ∧ r.text = "1e-7-1" ∧
      ¬∃ r', NumberRange.parse r.text = .ok r' := by
  let r : NumberRange :=
    ⟨.ofDecimal false 1 (-7), .ofDecimal false 1 0, by decide +kernel, by decide +kernel⟩
  have hread : Range.read? "0.0000001-1".toList = some (.number r) := by decide +kernel
  have htext : r.text = "1e-7-1" := by decide +kernel
  have hcut : Range.read? "1e-7-1".toList = none := by decide +kernel
  refine ⟨r, by rw [NumberRange.parse, hread], htext, ?_⟩
  rw [htext, NumberRange.parse, hcut]
  intro h
  obtain ⟨r', h⟩ := h
  cases h

end NumberRange

end GenExpr
