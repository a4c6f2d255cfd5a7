import GenExpr.Proofs.Decimal.Layout

/-!
# The text of a number reads back

Every finite number is read back from its text, zero without its sign. The text of a number has a hyphen
inside it if the number is not zero and less than 10^-5.
-/

namespace GenExpr

open Binary64 Decimal

/-- A number is zero or at least 10^-5, whatever its sign. -/
def Binary64.IsPlain (x : Binary64) : Prop := x.magnitude = 0 ∨ one ≤ units x.magnitude * 10 ^ 5

instance (x : Binary64) : Decidable x.IsPlain := inferInstanceAs (Decidable (_ ∨ _))

namespace Decimal

section Point

/-- The least magnitude that is at least 10^-5, and the one nearest to it. -/
def leastPlain : Nat := (ofDecimal false 1 (-5)).magnitude

theorem leastPlain_facts : units (leastPlain - 1) * 10 ^ 5 < one ∧ one ≤ units leastPlain * 10 ^ 5 ∧
    shortest .toEven leastPlain = ⟨1, -5⟩ := by
  decide +kernel

theorem leastPlain_le_iff {m : Nat} : leastPlain ≤ m ↔ one ≤ units m * 10 ^ 5 := by
  obtain ⟨hbefore, hleast, -⟩ := leastPlain_facts
  constructor
  · intro hle
    exact hleast.trans (Nat.mul_le_mul_right _ (units_mono hle))
  · intro hle
    by_contra hlt
    have hunits := Nat.mul_le_mul_right (10 ^ 5) (units_mono (n := leastPlain - 1) (m := m) (by omega))
    omega

/-- The shortest digits of a number that is at least 10^-5 are at least 10^-5 themselves, and those of a
smaller one are smaller. -/
theorem point_shortest {m : Nat} (hpos : 0 < m) :
    -4 ≤ (shortest .toEven m).point ↔ one ≤ units m * 10 ^ 5 := by
  obtain ⟨-, -, hshortest⟩ := leastPlain_facts
  have hround := roundsTo_shortest .toEven hpos
  have hlimit : RoundsTo leastPlain (10 ^ (-5 : Int) * one) := by
    have h := roundsTo_shortest .toEven (m := leastPlain) (by decide +kernel)
    rw [hshortest, Digits.value] at h
    simpa using h
  rw [← leastPlain_le_iff]
  obtain hlt | heq | hgt := Nat.lt_trichotomy m leastPlain
  · have hsmall : (shortest .toEven m).value < 10 ^ (-5 : Int) :=
      lt_of_mul_lt_mul_right (hround.lt_of_lt hlimit hlt) one_cast_pos.le
    have hpow := (pow_le_value (digits_shortest_pos .toEven hpos)).trans_lt hsmall
    have hpoint := (zpow_lt_zpow_iff_right₀ (by norm_num)).1 hpow
    exact iff_of_false (by omega) (Nat.not_le_of_lt hlt)
  · rw [heq, hshortest]
    exact iff_of_true (by decide) (Nat.le_refl _)
  · have hlarge : (10 : ℚ) ^ (-5 : Int) < (shortest .toEven m).value :=
      lt_of_mul_lt_mul_right (hlimit.lt_of_lt hround hgt) one_cast_pos.le
    have hpow := hlarge.trans (value_lt_pow _)
    have hpoint := (zpow_lt_zpow_iff_right₀ (by norm_num)).1 hpow
    exact iff_of_true (by omega) hgt.le

end Point

section Text

variable {x : Binary64}

theorem isWhole_iff : x.isWhole = true ↔ x.isFinite = true ∧ one ∣ units x.magnitude := by
  rw [isWhole, Bool.and_eq_true, decide_eq_true_eq, ← Int.dvd_iff_emod_eq_zero, value]
  split
  next => rw [Int.dvd_neg, Int.natCast_dvd_natCast]
  next => rw [Int.natCast_dvd_natCast]

theorem floor_of_units {n : Nat} (h : units x.magnitude = one * n) :
    x.floor = if x.negative then -(n : Int) else n := by
  have hone : (one : Int) ≠ 0 := Int.natCast_ne_zero.2 (Nat.ne_of_gt Binary64.one_pos)
  have hdvd : (one : Int) ∣ one * n := Int.dvd_mul_right _ _
  rw [floor, value, h, Nat.cast_mul]
  split
  next => rw [Int.neg_ediv_of_dvd hdvd, Int.mul_ediv_cancel_left _ hone]
  next => rw [Int.mul_ediv_cancel_left _ hone]

theorem ofInt_signed {n : Nat} (hpos : 0 < n) (negative : Bool) :
    ofInt (if negative then -(n : Int) else n) = signed negative (Nat.toDigits 10 n) := by
  cases negative with
  | true =>
    rw [if_pos rfl, ofInt_of_neg (by omega), Int.natAbs_neg]
    rfl
  | false => rfl

theorem text_of_zero (h : x.magnitude = 0) : text x = ['0'] := by
  have hunits : units x.magnitude = one * 0 := by rw [h, Nat.mul_zero]; rfl
  have hfinite : x.isFinite = true := by rw [isFinite, h]; decide
  have hwhole : x.isWhole = true := isWhole_iff.2 ⟨hfinite, hunits ▸ Nat.dvd_mul_right _ _⟩
  have hsmall : x.value.natAbs < exactLimit := by
    have hvalue : x.value = 0 := by rw [value, hunits]; simp
    rw [hvalue]
    exact Nat.shiftLeft_pos_iff.2 Binary64.one_pos
  rw [text, if_pos ⟨hwhole, hsmall⟩, floor_of_units hunits]
  simp [ofInt]

theorem write_of_pos (l : Layout) (finite : x.isFinite = true) (hpos : 0 < x.magnitude) :
    l.write x = signed x.negative (l.digits (shortest l.tie x.magnitude)) := by
  have hmagnitude : x.magnitude < infiniteMagnitude := of_decide_eq_true finite
  have hnan : x.isNaN = false := decide_eq_false (by omega)
  have hinfinite : x.isInfinite = false := decide_eq_false (by omega)
  simp [Layout.write, hnan, hinfinite, Nat.ne_of_gt hpos, signed]

/-- The text of a number that is not zero is the one of its magnitude after its sign. It spells a value
that rounds to the number. -/
theorem exists_text_eq (finite : x.isFinite = true) (hpos : 0 < x.magnitude) :
    ∃ cs v, text x = signed x.negative cs ∧ Spells cs v ∧ RoundsTo x.magnitude (v * one) ∧
      (x.IsPlain → cs ≠ [] ∧ '-' ∉ cs) ∧ (¬x.IsPlain → Hyphenated cs) := by
  rw [text]
  split
  next hwhole =>
    obtain ⟨n, hn⟩ := (isWhole_iff.1 hwhole.1).2
    have hn_pos : 0 < n := by
      have hunits := units_pos hpos
      by_contra hzero
      obtain rfl : n = 0 := by omega
      omega
    have hplain : x.IsPlain := by
      refine .inr ?_
      rw [hn, Nat.mul_assoc]
      exact Nat.le_mul_of_pos_right _ (Nat.mul_pos hn_pos (by decide))
    rw [floor_of_units hn, ofInt_signed hn_pos]
    refine ⟨_, n, rfl, spells_toDigits n, ?_, ?_, fun h => absurd hplain h⟩
    · convert roundsTo_units x.magnitude using 1
      rw [hn]
      push_cast
      ring
    · exact fun _ => ⟨Nat.toDigits_ne_nil, hyphen_not_mem_of_digits isDigit_of_mem_toDigits⟩
  next =>
    have hpoint := point_shortest hpos
    have htext : Layout.text.write x =
        signed x.negative (Layout.text.digits (shortest .toEven x.magnitude)) :=
      write_of_pos _ finite hpos
    rw [htext]
    refine ⟨_, _, rfl, spells_digits _ _, roundsTo_shortest _ hpos, ?_, ?_⟩
    · intro hplain
      have hle := hpoint.2 (hplain.resolve_left (by omega))
      exact ⟨digits_ne_nil, hyphen_not_mem_digits (.inl hle)⟩
    · intro hplain
      have hlt : (shortest .toEven x.magnitude).point < -4 :=
        Int.not_le.1 fun hle => hplain (.inr (hpoint.1 hle))
      exact hyphenated_digits hlt (by omega)

/-- A finite number is read back from its text. Zero is read back without its sign, as an equal
number. -/
theorem exists_finite?_text (finite : x.isFinite = true) :
    ∃ y, finite? (text x) = some y ∧ y.eq x = true := by
  have hnan : x.isNaN = false := decide_eq_false (Nat.not_lt_of_lt (of_decide_eq_true finite))
  obtain hzero | hpos := Nat.eq_zero_or_pos x.magnitude
  · rw [text_of_zero hzero]
    refine ⟨zero false, by decide +kernel, ?_⟩
    simp [Binary64.eq, rank, hzero, zero, isNaN]
  · obtain ⟨cs, v, htext, hspells, hround, -⟩ := exists_text_eq finite hpos
    obtain ⟨y, hread, hsign, hmagnitude⟩ :=
      hspells.exists_finite x.negative hpos (of_decide_eq_true finite) hround
    obtain rfl : y = x := by
      cases x
      cases y
      simp_all
    exact ⟨y, htext ▸ hread, by simp [Binary64.eq, hnan]⟩

end Text

end Decimal

end GenExpr
