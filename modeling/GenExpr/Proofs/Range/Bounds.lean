import GenExpr.Proofs.Range

/-!
# The two bounds of a range

A hyphen is a sign in front of a bound and a separator between bounds, and still a text has two bounds in
at most one way. What the bounds are decides alone what the range is: numbers come first, and characters
only where the bounds are not both numbers. The numeric shorthand allows fewer characters in a bound, and
cuts where the reader of ranges cuts.
-/

namespace GenExpr

open Expression (IsBound splitRange isNumeric isNumberRange)

theorem Expression.IsBound.mono {p q : Char → Bool} (hpq : ∀ c, p c = true → q c = true)
    {b : List Char} (h : IsBound p b) : IsBound q b := by
  obtain ⟨body, hne, hbody, hsign⟩ := h
  exact ⟨body, hne, fun c hc => hpq c (hbody c hc), hsign⟩

namespace Range

/-- A text is two bounds with a hyphen between them, each an optional minus sign and at least one
character that is no hyphen. -/
structure Splits (cs lo hi : List Char) : Prop where
  lo_bound : IsBound isBoundChar lo
  hi_bound : IsBound isBoundChar hi
  eq_append : cs = lo ++ '-' :: hi

/-- The range that two bounds stand for. -/
inductive StandFor (lo hi : List Char) : Range → Prop where
  | number {min max : Binary64} (lo_reads : Decimal.finite? lo = some min)
      (hi_reads : Decimal.finite? hi = some max) (ordered : min.le max = true)
      (finite_width : (max.sub min).isFinite = true) :
      StandFor lo hi (.number ⟨min, max, ordered, finite_width⟩)
  | char {min max : Char} (lo_eq : lo = [min]) (hi_eq : hi = [max])
      (not_numbers : ¬((Decimal.finite? lo).isSome ∧ (Decimal.finite? hi).isSome))
      (ordered : min ≤ max) :
      StandFor lo hi (.char ⟨min, max, ordered⟩)

section Splits

variable {cs lo hi lo' hi' : List Char}

theorem bounds?_eq_some_iff : bounds? cs = some (lo, hi) ↔ Splits cs lo hi := by
  rw [bounds?, Expression.splitRange_eq_some_iff rfl]
  constructor
  · intro h
    exact ⟨h.1, h.2.1, h.2.2⟩
  · intro h
    exact ⟨h.lo_bound, h.hi_bound, h.eq_append⟩

theorem Splits.unique (h : Splits cs lo hi) (h' : Splits cs lo' hi') : lo = lo' ∧ hi = hi' := by
  have hbounds := bounds?_eq_some_iff.2 h
  rw [bounds?_eq_some_iff.2 h'] at hbounds
  obtain ⟨rfl, rfl⟩ := Prod.mk.inj (Option.some.inj hbounds)
  exact ⟨rfl, rfl⟩

/-- Digits and points are no hyphens, so the numeric shorthand cuts at the same hyphen. -/
theorem splits_of_numeric (h : splitRange isNumeric cs = some (lo, hi)) : Splits cs lo hi := by
  have hchar : ∀ c, isNumeric c = true → isBoundChar c = true := by
    intro c hc
    refine decide_eq_true ?_
    rintro rfl
    cases hc
  obtain ⟨hlo, hhi, heq⟩ := (Expression.splitRange_eq_some_iff rfl).1 h
  exact ⟨hlo.mono hchar, hhi.mono hchar, heq⟩

end Splits

section Read

variable {lo hi : List Char} {r : Range}

theorem standFor_of_ofBounds? (h : ofBounds? lo hi = some r) : StandFor lo hi r := by
  rw [ofBounds?.eq_def] at h
  split at h
  next min max hlo hhi =>
    obtain ⟨range, hrange, rfl⟩ := Option.map_eq_some_iff.1 h
    rw [NumberRange.ofBounds?] at hrange
    split at hrange
    next hordered =>
      obtain rfl := Option.some.inj hrange
      exact .number hlo hhi hordered.1 hordered.2
    next => cases hrange
  next hnumbers =>
    split at h
    next min max =>
      obtain ⟨range, hrange, rfl⟩ := Option.map_eq_some_iff.1 h
      rw [CharRange.ofBounds?] at hrange
      split at hrange
      next hordered =>
        obtain rfl := Option.some.inj hrange
        refine .char rfl rfl ?_ hordered
        rintro ⟨hlo, hhi⟩
        obtain ⟨x, hx⟩ := Option.isSome_iff_exists.1 hlo
        obtain ⟨y, hy⟩ := Option.isSome_iff_exists.1 hhi
        exact hnumbers x y hx hy
      next => cases hrange
    next => cases h

theorem ofBounds?_of_standFor (h : StandFor lo hi r) : ofBounds? lo hi = some r := by
  rw [ofBounds?.eq_def]
  cases h with
  | number hlo hhi hordered hwidth =>
    rw [hlo, hhi]
    simp only [NumberRange.ofBounds?, dif_pos (And.intro hordered hwidth), Option.map_some]
  | char hlo hhi hnumbers hordered =>
    split
    next hx hy => exact absurd ⟨by rw [hx]; rfl, by rw [hy]; rfl⟩ hnumbers
    next =>
      subst hlo hhi
      simp only [CharRange.ofBounds?, dif_pos hordered, Option.map_some]

theorem read?_eq_some_iff_standFor {cs : List Char} :
    read? cs = some r ↔ ∃ lo hi, Splits cs lo hi ∧ StandFor lo hi r := by
  rw [read?_eq_some_iff]
  constructor
  · intro h
    obtain ⟨lo, hi, hlo, hhi, heq, hbounds⟩ := h
    exact ⟨lo, hi, ⟨hlo, hhi, heq⟩, standFor_of_ofBounds? hbounds⟩
  · intro h
    obtain ⟨lo, hi, hsplits, hstand⟩ := h
    exact ⟨lo, hi, hsplits.lo_bound, hsplits.hi_bound, hsplits.eq_append, ofBounds?_of_standFor hstand⟩

theorem parse_eq_ok_iff {s : String} : Range.parse s = .ok r ↔ read? s.toList = some r := by
  rw [Range.parse]
  split
  next r' hread => rw [hread, Except.ok.injEq, Option.some.injEq]
  next hread => simp [hread]

theorem parse_eq_error {s : String} (h : ∀ r, Range.parse s ≠ .ok r) :
    Range.parse s = .error (.invalidRange s) := by
  rw [Range.parse]
  split
  next r hread => exact absurd (parse_eq_ok_iff.2 hread) (h r)
  next => rfl

end Read

/-- A text is cut into bounds in at most one way, and it is a range exactly if these bounds stand for one: of
numbers if both are finite numbers, in order and not too far apart, and of characters if they are not
both numbers but single characters in order. Every other text is an invalid range. So no text is both a
range of numbers and one of characters, and the numeric shorthand cuts a text where a range is cut. -/
theorem parse_by_bounds (s : String) :
    (∀ lo hi lo' hi', Splits s.toList lo hi → Splits s.toList lo' hi' → lo = lo' ∧ hi = hi') ∧
    (∀ r, Range.parse s = .ok r ↔ ∃ lo hi, Splits s.toList lo hi ∧ StandFor lo hi r) ∧
    ((¬∃ lo hi r, Splits s.toList lo hi ∧ StandFor lo hi r) →
      Range.parse s = .error (.invalidRange s)) ∧
    (∀ r r', NumberRange.parse s = .ok r → CharRange.parse s ≠ .ok r') ∧
    (isNumberRange s.toList = true → ∃ lo hi, splitRange isNumeric s.toList = some (lo, hi) ∧
      bounds? s.toList = some (lo, hi)) := by
  have hparse : ∀ r, Range.parse s = .ok r ↔ ∃ lo hi, Splits s.toList lo hi ∧ StandFor lo hi r :=
    fun r => parse_eq_ok_iff.trans read?_eq_some_iff_standFor
  refine ⟨fun lo hi lo' hi' => Splits.unique, hparse, ?_, ?_, ?_⟩
  · intro hnone
    apply parse_eq_error
    intro r hr
    obtain ⟨lo, hi, hstand⟩ := (hparse r).1 hr
    exact hnone ⟨lo, hi, r, hstand⟩
  · intro r r' hnumber hchar
    rw [NumberRange.parse] at hnumber
    rw [CharRange.parse] at hchar
    cases hread : read? s.toList with
    | none => simp [hread] at hnumber
    | some range =>
      cases range with
      | number r => simp [hread] at hchar
      | char r => simp [hread] at hnumber
  · intro h
    obtain ⟨⟨lo, hi⟩, hsplit⟩ := Option.isSome_iff_exists.1 h
    exact ⟨lo, hi, hsplit, bounds?_eq_some_iff.2 (splits_of_numeric hsplit)⟩

end Range

end GenExpr
