import GenExpr.Proofs.Decimal.Text
import GenExpr.Proofs.Json.RoundTrip
import GenExpr.Proofs.Json.Scale

/-!
# Floats in JSON

What the reader gathers from the text that a float is written as: the shortest digits, or for a number
that is written with `.0` those of ten times the number. Their value is the one of the shortest digits.
-/

namespace GenExpr

open Binary64

/-- The digits that are gathered from the JSON text of a number. -/
def Decimal.Digits.gathered (d : Digits) : Digits :=
  if 0 ≤ d.exponent ∧ d.point ≤ 16 then ⟨d.digits * 10 ^ (d.exponent.toNat + 1), -1⟩ else d

namespace Json

section Reading

variable {ds rest : List Char}

theorem decimals_digits (hne : ds ≠ []) (hds : ∀ c ∈ ds, c.isDigit = true)
    (hrest : startsWithDigit rest = false) {m : Nat} (hword : Nat.ofDigitChars 10 ds m ≤ maxWord)
    (negative : Bool) (start : Int) :
    decimals negative m start (ds ++ rest) =
      ending negative (Nat.ofDigitChars 10 ds m) (start - ds.length) rest := by
  have hcount : ds.length ≠ 0 := Nat.ne_of_gt (List.length_pos_iff.2 hne)
  simp only [decimals, gather_digits hds hrest m 0 hword, hrest, Bool.false_eq_true, if_false,
    Nat.zero_add, if_neg hcount]

theorem gatherExponent_digits (hds : ∀ c ∈ ds, c.isDigit = true) {m : Nat}
    (hword : Nat.ofDigitChars 10 ds m < 1 <<< 31) :
    gatherExponent m ds = (some (Nat.ofDigitChars 10 ds m), []) := by
  induction ds generalizing m with
  | nil => rfl
  | cons c r ih =>
    obtain ⟨hc, hr⟩ := List.forall_mem_cons.1 hds
    have hstep : 10 * m + (c.toNat - '0'.toNat) = m * 10 + digit c := by
      rw [digit]
      omega
    rw [Nat.ofDigitChars_cons, hstep] at hword ⊢
    have hle : m * 10 + digit c < 1 <<< 31 := Nat.lt_of_le_of_lt (le_ofDigitChars r _) hword
    rw [gatherExponent, if_pos hc, if_pos hle, ih hr hword]

/-- Digits before the point and digits after it are gathered together. -/
theorem unsigned_mantissa {whole part : List Char} (hne : whole ≠ [])
    (hwhole : ∀ c ∈ whole, c.isDigit = true) (hzero : ∀ r, whole = '0' :: r → r = [])
    (hpart : ∀ c ∈ part, c.isDigit = true)
    (hword : Decimal.natOfDigits (whole ++ part) ≤ maxWord) (negative : Bool)
    (hrest : rest = [] ∧ part ≠ [] ∨ ∃ r, rest = 'e' :: r) :
    unsigned negative (Decimal.mantissa whole part ++ rest) =
      ending negative (Decimal.natOfDigits (whole ++ part)) (-part.length) rest := by
  have hvalue : Decimal.natOfDigits (whole ++ part) =
      Nat.ofDigitChars 10 part (Nat.ofDigitChars 10 whole 0) := Nat.ofDigitChars_append _
  have hstop : startsWithDigit rest = false := by
    rcases hrest with ⟨rfl, -⟩ | ⟨r, rfl⟩
    · rfl
    · rfl
  rw [hvalue] at hword ⊢
  have hfirst := Nat.le_trans (le_ofDigitChars part _) hword
  rw [Decimal.mantissa]
  split
  next hnone =>
    subst hnone
    obtain ⟨r, rfl⟩ : ∃ r, rest = 'e' :: r := hrest.resolve_left fun h => h.2 rfl
    exact unsigned_digits hne hwhole hzero hfirst negative rfl
  next hsome =>
    have hpoint : startsWithDigit ('.' :: (part ++ rest)) = false := rfl
    rw [List.append_assoc, List.cons_append,
      unsigned_digits hne hwhole hzero hfirst negative hpoint]
    have hwhole : Json.whole negative (Nat.ofDigitChars 10 whole 0) ('.' :: (part ++ rest)) =
      decimals negative (Nat.ofDigitChars 10 whole 0) 0 (part ++ rest) := rfl
    rw [hwhole, decimals_digits hsome hpart hstop hword, Int.zero_sub]

theorem clampExponent_of_small {e : Int} (h : e.natAbs < 1 <<< 31) : clampExponent e = e := by
  have hlimit : 1 <<< 31 = 0x80000000 := by decide
  rw [clampExponent]
  omega

theorem exponent_ofInt (plus : Prop) [Decidable plus] {i start : Int} (hi : i.natAbs < 1 <<< 31)
    (hsum : (start + i).natAbs < 1 <<< 31) (negative : Bool) (m : Nat) :
    exponent negative m start ((if plus ∧ 0 < i then ['+'] else []) ++ Decimal.ofInt i) =
      float negative m (start + i) [] := by
  obtain ⟨c, r, hcr⟩ := List.exists_cons_of_ne_nil (Nat.toDigits_ne_nil (n := i.natAbs) (b := 10))
  have hdigits : ∀ c ∈ Nat.toDigits 10 i.natAbs, c.isDigit = true := Decimal.isDigit_of_mem_toDigits
  have hvalue : Nat.ofDigitChars 10 (Nat.toDigits 10 i.natAbs) 0 = i.natAbs :=
    Nat.ofDigitChars_ten_toDigits
  rw [hcr] at hdigits hvalue
  obtain ⟨hc, hr⟩ := List.forall_mem_cons.1 hdigits
  have hfirst : 10 * 0 + (c.toNat - '0'.toNat) = digit c := by
    rw [digit]
    omega
  rw [Nat.ofDigitChars_cons, hfirst] at hvalue
  have hgather := gatherExponent_digits hr (m := digit c) (hvalue.symm ▸ hi)
  have hstart : (if decide (i < 0) = true then start - (i.natAbs : Int) else start + i.natAbs) =
      start + i := by
    simp only [decide_eq_true_eq]
    split <;> omega
  simp only [exponent, Decimal.sign?_ofInt, hcr, hc, if_true, hgather, hvalue, hstart,
    clampExponent_of_small hsum]

/-- A number begins with its sign, or with a digit. -/
theorem number_signed {cs : List Char} (hne : cs ≠ []) (hds : ∀ c ∈ cs, c.isDigit = true)
    (negative : Bool) (rest : List Char) :
    number (Decimal.signed negative (cs ++ rest)) = unsigned negative (cs ++ rest) := by
  cases negative with
  | true => rfl
  | false =>
    obtain ⟨c, r, rfl⟩ := List.exists_cons_of_ne_nil hne
    have hc := hds c List.mem_cons_self
    have hplain : Decimal.signed false (c :: r ++ rest) = c :: (r ++ rest) := rfl
    rw [hplain, number.eq_def]
    split
    next heq =>
      obtain ⟨rfl, -⟩ := List.cons.inj heq
      cases hc
    next => rfl

end Reading

section Written

open Decimal (Digits Layout natOfDigits mantissa shortest signed digitCount)

variable {d : Digits}

theorem gathered_of_whole (h : 0 ≤ d.exponent ∧ d.point ≤ 16) :
    d.gathered = ⟨d.digits * 10 ^ (d.exponent.toNat + 1), -1⟩ := if_pos h

theorem gathered_of_not_whole (h : ¬(0 ≤ d.exponent ∧ d.point ≤ 16)) : d.gathered = d := if_neg h

/-- The digits that are set down are the gathered ones, and a text without an exponent has a point. -/
theorem exists_written (hpos : 0 < d.digits) :
    ∃ whole part rest e, Layout.json.Writes d whole part rest e ∧
      (∀ r, whole = '0' :: r → r = []) ∧ (rest = [] ∧ part ≠ [] ∨ ∃ r, rest = 'e' :: r) ∧
      natOfDigits (whole ++ part) = d.gathered.digits ∧ e - part.length = d.gathered.exponent := by
  obtain ⟨ds, hds⟩ : ∃ ds, Nat.toDigits 10 d.digits = ds := ⟨_, rfl⟩
  have hpoint := Decimal.point_eq hds
  have hlength : 0 < ds.length := hds ▸ Nat.length_toDigits_pos
  have hdigits : ∀ c ∈ ds, c.isDigit = true := hds ▸ Decimal.isDigit_of_mem_toDigits
  have hvalue : natOfDigits ds = d.digits := hds ▸ Decimal.natOfDigits_toDigits
  have hleading : ∀ r, ds ≠ '0' :: r := by
    intro r h
    exact Nat.ne_of_gt hpos (eq_zero_of_toDigits (hds.trans h)).1
  have hnone := List.length_pos_iff.1 hlength
  by_cases hwhole : 0 ≤ d.exponent ∧ d.point ≤ 16
  · refine ⟨_, _, _, _, Decimal.writes_zeros_after hds hlength hdigits hwhole, ?_,
      .inl ⟨rfl, List.cons_ne_nil _ _⟩, ?_, ?_⟩
    · intro r h
      obtain ⟨c, s, rfl⟩ := List.exists_cons_of_ne_nil hnone
      obtain ⟨rfl, -⟩ := List.cons.inj h
      exact absurd rfl (hleading s)
    · have hzeros : ds ++ List.replicate d.exponent.toNat '0' ++ ['0'] =
          ds ++ List.replicate (d.exponent.toNat + 1) '0' := by
        rw [List.replicate_succ', List.append_assoc]
      rw [hzeros, Decimal.natOfDigits_append_zeros, hvalue, gathered_of_whole hwhole]
    · rw [gathered_of_whole hwhole]
      rfl
  rw [gathered_of_not_whole hwhole]
  by_cases hwithin : 0 < d.point ∧ d.point ≤ 16
  · have hsplit := List.take_append_drop d.point.toNat ds
    have hdrop : (ds.drop d.point.toNat).length = ds.length - d.point.toNat := List.length_drop
    refine ⟨_, _, _, _, Decimal.writes_point_within hds hlength hdigits hwhole hwithin, ?_,
      .inl ⟨rfl, ?_⟩, by rw [hsplit, hvalue], ?_⟩
    · intro r h
      rw [h] at hsplit
      exact absurd hsplit.symm (hleading _)
    · rw [← List.length_pos_iff, hdrop]
      omega
    · rw [hdrop]
      omega
  by_cases hsmall : -4 ≤ d.point ∧ d.point ≤ 0
  · refine ⟨_, _, _, _, Decimal.writes_zeros_before hds hlength hdigits hwhole hsmall,
      fun r h => (List.cons.inj h).2.symm, .inl ⟨rfl, ?_⟩, ?_, ?_⟩
    · exact List.append_ne_nil_of_right_ne_nil _ hnone
    · have hzeros : ['0'] ++ (List.replicate (-d.point).toNat '0' ++ ds) =
          List.replicate ((-d.point).toNat + 1) '0' ++ ds := rfl
      rw [hzeros, Decimal.natOfDigits_zeros_append, hvalue]
    · rw [List.length_append, List.length_replicate]
      omega
  · have hsplit := List.take_append_drop 1 ds
    have hdrop : (ds.drop 1).length = ds.length - 1 := List.length_drop
    refine ⟨_, _, _, _, Decimal.writes_exponent hds hlength hdigits hwhole hwithin hsmall, ?_,
      .inr ⟨_, rfl⟩, by rw [hsplit, hvalue], ?_⟩
    · intro r h
      rw [h] at hsplit
      exact absurd hsplit.symm (hleading _)
    · rw [hdrop]
      omega

theorem exponent_gathered (d : Digits) :
    d.gathered.exponent = -1 ∨ d.gathered.exponent = d.exponent := by
  by_cases h : 0 ≤ d.exponent ∧ d.point ≤ 16
  · exact .inl (congrArg Digits.exponent (gathered_of_whole h))
  · exact .inr (congrArg Digits.exponent (gathered_of_not_whole h))

theorem ending_written {rest : List Char} {e start : Int} (negative : Bool) (m : Nat)
    (hrest : rest = [] ∧ e = 0 ∨ rest = 'e' ::
      ((if Layout.json.plus ∧ 0 < e then ['+'] else []) ++ Decimal.ofInt e))
    (he : e.natAbs < 1 <<< 31) (hsum : (start + e).natAbs < 1 <<< 31) :
    ending negative m start rest = float negative m (start + e) [] := by
  obtain ⟨rfl, rfl⟩ | rfl := hrest
  · rw [Int.add_zero]
    rfl
  · rw [ending, if_pos (.inl rfl), exponent_ofInt _ he hsum]

/-- The gathered digits are read from the text of a number, with its sign. -/
theorem number_digits (hpos : 0 < d.digits) (hdigits : d.digits ≤ 10 ^ 17)
    (hword : d.gathered.digits ≤ maxWord) (lower : -324 ≤ d.exponent) (upper : d.exponent ≤ 308)
    (negative : Bool) :
    number (signed negative (Layout.json.digits d)) =
      float negative d.gathered.digits d.gathered.exponent [] := by
  obtain ⟨whole, part, rest, e, hwrites, hzero, hrest, hvalue, hexponent⟩ := exists_written hpos
  have hlimit : 1 <<< 31 = 0x80000000 := by decide
  have hcount : digitCount d.digits ≤ 18 :=
    (Nat.length_toDigits_le_iff (by decide) (by decide)).2 (by omega)
  have hpoint : d.point = digitCount d.digits + d.exponent := rfl
  have hgathered := exponent_gathered d
  have hsum : -(part.length : Int) + e = d.gathered.exponent := by omega
  have hend : rest = [] ∧ e = 0 ∨ rest = 'e' ::
      ((if Layout.json.plus ∧ 0 < e then ['+'] else []) ++ Decimal.ofInt e) :=
    hwrites.range.imp (fun h => ⟨h.1, h.2.1⟩) (fun h => h.1)
  have he : e.natAbs < 1 <<< 31 := by
    rcases hwrites.range with ⟨-, rfl, -⟩ | ⟨-, rfl, -⟩
    · decide
    · omega
  obtain ⟨tail, htail⟩ : ∃ tail, mantissa whole part ++ rest = whole ++ tail := by
    rw [mantissa]
    split
    next => exact ⟨rest, rfl⟩
    next => exact ⟨'.' :: (part ++ rest), by simp⟩
  have hnumber : number (signed negative (mantissa whole part ++ rest)) =
      unsigned negative (mantissa whole part ++ rest) := by
    rw [htail]
    exact number_signed hwrites.whole_ne_nil hwrites.whole_digits negative tail
  rw [← hvalue] at hword ⊢
  rw [hwrites.text, hnumber, unsigned_mantissa hwrites.whole_ne_nil hwrites.whole_digits hzero
    hwrites.part_digits hword negative hrest, ending_written negative _ hend he (by omega), hsum]

theorem value_gathered (d : Digits) : d.gathered.value = d.value := by
  by_cases h : 0 ≤ d.exponent ∧ d.point ≤ 16
  · obtain ⟨k, hk⟩ := Int.eq_ofNat_of_zero_le h.1
    rw [gathered_of_whole h, Digits.value, Digits.value, hk, Int.toNat_natCast, zpow_natCast]
    push_cast
    rw [pow_succ]
    norm_num
    ring
  · rw [gathered_of_not_whole h]

theorem digits_gathered_pos (hpos : 0 < d.digits) : 0 < d.gathered.digits := by
  by_cases h : 0 ≤ d.exponent ∧ d.point ≤ 16
  · rw [gathered_of_whole h]
    exact Nat.mul_pos hpos (Nat.pow_pos (by decide))
  · rwa [gathered_of_not_whole h]

theorem digits_gathered_le (hdigits : d.digits ≤ 10 ^ 17) : d.gathered.digits ≤ 10 ^ 17 := by
  by_cases h : 0 ≤ d.exponent ∧ d.point ≤ 16
  · have hpoint : d.point = digitCount d.digits + d.exponent := rfl
    have hlt := Decimal.lt_pow_digitCount d.digits
    rw [gathered_of_whole h]
    calc d.digits * 10 ^ (d.exponent.toNat + 1)
      _ ≤ 10 ^ digitCount d.digits * 10 ^ (d.exponent.toNat + 1) := Nat.mul_le_mul_right _ hlt.le
      _ = 10 ^ (digitCount d.digits + (d.exponent.toNat + 1)) := (Nat.pow_add ..).symm
      _ ≤ 10 ^ 17 := Nat.pow_le_pow_right (by decide) (by omega)
  · rwa [gathered_of_not_whole h]

end Written

section ReadBack

open Decimal (Digits Layout shortest signed)

variable {m : Nat}

/-- The digits that are gathered from the text of a positive number. -/
def gatheredOf (m : Nat) : Digits := (shortest .toEven m).gathered

theorem digits_gatheredOf_pos (hpos : 0 < m) : 0 < (gatheredOf m).digits :=
  digits_gathered_pos (Decimal.digits_shortest_pos .toEven hpos)

theorem digits_gatheredOf_le (hpos : 0 < m) : (gatheredOf m).digits ≤ 10 ^ 17 :=
  digits_gathered_le (Decimal.digits_shortest_le .toEven hpos)

theorem exponent_gatheredOf (hpos : 0 < m) (hm : m < infiniteMagnitude) :
    -324 ≤ (gatheredOf m).exponent ∧ (gatheredOf m).exponent ≤ 308 := by
  have hlower := Decimal.le_exponent_shortest .toEven hpos
  have hupper := Decimal.exponent_shortest_le .toEven hpos hm
  rcases exponent_gathered (shortest .toEven m) with h | h
  · rw [gatheredOf, h]
    decide
  · rw [gatheredOf, h]
    exact ⟨hlower, hupper⟩

theorem roundsTo_gatheredOf (hpos : 0 < m) :
    RoundsTo m ((gatheredOf m).digits * 10 ^ (gatheredOf m).exponent * one) := by
  have hround := Decimal.roundsTo_shortest .toEven hpos
  rwa [← value_gathered] at hround

/-- The greatest numbers do not overflow when they are read back. -/
theorem scale_greatest : ∀ k, k < 3 →
    (scale (gatheredOf (greatest - k)).digits (gatheredOf (greatest - k)).exponent).any
      Binary64.isFinite = true := by
  decide +kernel

/-- Scaling the gathered digits of a number gives a finite number that is near it. -/
theorem exists_finite_beside (hpos : 0 < m) (hm : m < infiniteMagnitude) :
    ∃ y, scale (gatheredOf m).digits (gatheredOf m).exponent = some y ∧ Beside y m ∧
      y.magnitude < infiniteMagnitude := by
  obtain ⟨hlower, hupper⟩ := exponent_gatheredOf hpos hm
  obtain ⟨y, hbeside, hscale⟩ := exists_beside (digits_gatheredOf_pos hpos)
    (digits_gatheredOf_le hpos) hlower hupper hm (roundsTo_gatheredOf hpos)
  have hnear := hbeside.le_add
  by_cases htop : m + 3 < infiniteMagnitude
  · exact ⟨y, hscale.resolve_right fun h => by omega, hbeside, by omega⟩
  · -- only the three greatest numbers are close enough to the end to overflow
    have hplace : ∃ k, k < 3 ∧ greatest - k = m := by
      refine ⟨greatest - m, ?_, ?_⟩ <;> rw [greatest] <;> omega
    obtain ⟨k, hk, rfl⟩ := hplace
    have hfinite := scale_greatest k hk
    rcases hscale with hsome | ⟨hnone, -⟩
    · rw [hsome] at hfinite
      exact ⟨y, hsome, hbeside, of_decide_eq_true hfinite⟩
    · rw [hnone] at hfinite
      cases hfinite

/-- A text that is a number as a whole is read as the value of the number. -/
theorem read_number {cs : List Char} {n : Number}
    (hopens : ∃ c r, cs = c :: r ∧ (c = '-' ∨ c.isDigit = true)) (h : number cs = .ok (n, [])) :
    read (String.ofList cs) = .ok n.value := by
  obtain ⟨c, r, rfl, hc⟩ := hopens
  have hvalue : value maxDepth (c :: r) = .ok (n.value, []) := by
    rw [maxDepth, value, valueWith_number hc, numberValue, h]
  simp only [read, readAll, String.toList_ofList, hvalue]
  rfl

theorem exists_signed_digits_cons (l : Layout) (d : Digits) (negative : Bool) :
    ∃ c r, signed negative (l.digits d) = c :: r ∧ (c = '-' ∨ c.isDigit = true) := by
  cases negative with
  | true => exact ⟨'-', _, rfl, .inl rfl⟩
  | false =>
    obtain ⟨whole, part, rest, e, h⟩ := Decimal.exists_writes l d
    obtain ⟨c, r, rfl⟩ := List.exists_cons_of_ne_nil h.whole_ne_nil
    have hc := h.whole_digits c List.mem_cons_self
    have hplain : signed false (l.digits d) = l.digits d := rfl
    rw [hplain, h.text, Decimal.mantissa]
    split
    next => exact ⟨c, _, rfl, .inr hc⟩
    next => exact ⟨c, _, rfl, .inr hc⟩

theorem write_zero (negative : Bool) :
    write (.float (zero negative)) = signed negative ['0', '.', '0'] := by
  cases negative with
  | true => rfl
  | false => rfl

theorem write_of_pos {x : Binary64} (finite : x.isFinite = true) (hpos : 0 < x.magnitude) :
    write (.float x) = signed x.negative (Layout.json.digits (shortest .toEven x.magnitude)) := by
  rw [write, writeFloat, if_pos finite, Decimal.write_of_pos _ finite hpos]
  rfl

theorem read_zero (negative : Bool) :
    read (Value.float (zero negative)).json = .ok (.float (zero negative)) := by
  have hscale : scale 0 (-1) = some (zero false) := by decide +kernel
  have hnumber : number (signed negative ['0', '.', '0']) = float negative 0 (-1) [] := by
    cases negative with
    | true => rfl
    | false => rfl
  have hfloat : float negative 0 (-1) [] = .ok (.float (zero negative), []) := by
    rw [float, hscale]
    cases negative with
    | true => rfl
    | false => rfl
  have hopens : ∃ c r, signed negative ['0', '.', '0'] = c :: r ∧ (c = '-' ∨ c.isDigit = true) := by
    cases negative with
    | true => exact ⟨'-', _, rfl, .inl rfl⟩
    | false => exact ⟨'0', _, rfl, .inr rfl⟩
  rw [Value.json, write_zero]
  exact read_number hopens (hnumber.trans hfloat)

/-- A positive or negative number is read as its gathered digits, scaled. -/
theorem read_float {x y : Binary64} (finite : x.isFinite = true) (hpos : 0 < x.magnitude)
    (hscale : scale (gatheredOf x.magnitude).digits (gatheredOf x.magnitude).exponent = some y) :
    read (Value.float x).json = .ok (.float (if x.negative then y.neg else y)) := by
  have hmagnitude : x.magnitude < infiniteMagnitude := of_decide_eq_true finite
  have hword : (gatheredOf x.magnitude).digits ≤ maxWord :=
    (digits_gatheredOf_le hpos).trans (by decide)
  have hnumber := number_digits (Decimal.digits_shortest_pos .toEven hpos)
    (Decimal.digits_shortest_le .toEven hpos) hword (Decimal.le_exponent_shortest .toEven hpos)
    (Decimal.exponent_shortest_le .toEven hpos hmagnitude) x.negative
  have hscale : float x.negative (shortest .toEven x.magnitude).gathered.digits
      (shortest .toEven x.magnitude).gathered.exponent [] =
        .ok (.float (if x.negative then y.neg else y), []) := by
    rw [float, ← gatheredOf, hscale]
  rw [Value.json, write_of_pos finite hpos]
  exact read_number (exists_signed_digits_cons _ _ _) (hnumber.trans hscale)

end ReadBack

end Json

end GenExpr
