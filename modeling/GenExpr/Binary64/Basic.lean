import GenExpr.Decimal.Power

/-!
# Binary64 numbers

The numbers of the IEEE 754 format binary64 as a sign and a magnitude. The magnitude is the bit pattern
without its sign, so magnitudes are ordered as the numbers are. Every finite magnitude is a whole
number of units of 2^-1074, and rounding to nearest, ties to even, is defined once, on exact quotients
of such units. Arithmetic is in `GenExpr.Binary64.Arithmetic`.
-/

namespace GenExpr

/-- A binary64 number: a sign, and the bit pattern without the sign. -/
structure Binary64 where
  negative : Bool
  magnitude : Nat
  bounded : magnitude < 1 <<< 63
  deriving DecidableEq, Repr

namespace Binary64

/-- The magnitude of the infinities. Greater magnitudes are not numbers. -/
def infiniteMagnitude : Nat := 0x7ff <<< 52

def ofBits (n : Nat) : Binary64 :=
  ⟨(n >>> 63) % 2 = 1, n % 1 <<< 63, Nat.mod_lt _ (by decide)⟩

def toBits (x : Binary64) : Nat := (if x.negative then 1 <<< 63 else 0) + x.magnitude

theorem ofBits_toBits (x : Binary64) : ofBits x.toBits = x := by
  obtain ⟨s, m, h⟩ := x
  cases s <;> simp [ofBits, toBits, Nat.shiftLeft_eq, Nat.shiftRight_eq_div_pow] at h ⊢ <;> omega

def isNaN (x : Binary64) : Bool := infiniteMagnitude < x.magnitude

def isInfinite (x : Binary64) : Bool := x.magnitude = infiniteMagnitude

def isFinite (x : Binary64) : Bool := x.magnitude < infiniteMagnitude

def zero (negative : Bool) : Binary64 := ⟨negative, 0, by decide⟩

def nan : Binary64 := ⟨false, infiniteMagnitude + 1 <<< 51, by decide⟩

def infinity (negative : Bool) : Binary64 := ⟨negative, infiniteMagnitude, by decide⟩

/-- How many units of 2^-1074 a magnitude stands for. Below 2^52 magnitudes count units; from there
on the leading bits are an exponent, and the rest is a fraction after a leading one. -/
def units (m : Nat) : Nat :=
  if m < 1 <<< 52 then m else (1 <<< 52 + m % 1 <<< 52) <<< ((m >>> 52) - 1)

theorem units_le_succ (m : Nat) : units m ≤ units (m + 1) := by
  simp only [units, Nat.shiftLeft_eq, Nat.shiftRight_eq_div_pow, Nat.one_mul]
  by_cases hs : m + 1 < 2 ^ 52
  · rw [if_pos (by omega), if_pos hs]
    omega
  by_cases hm : m < 2 ^ 52
  · obtain rfl : m = 2 ^ 52 - 1 := by omega
    decide
  rw [if_neg hm, if_neg hs]
  have hq : 1 ≤ m / 2 ^ 52 := by omega
  by_cases hc : m % 2 ^ 52 = 2 ^ 52 - 1
  · have h₁ : (m + 1) / 2 ^ 52 - 1 = (m / 2 ^ 52 - 1) + 1 := by omega
    have h₂ : (m + 1) % 2 ^ 52 = 0 := by omega
    rw [h₁, h₂, hc, Nat.pow_succ]
    omega
  · have h₁ : (m + 1) / 2 ^ 52 = m / 2 ^ 52 := by omega
    have h₂ : (m + 1) % 2 ^ 52 = m % 2 ^ 52 + 1 := by omega
    rw [h₁, h₂]
    exact Nat.mul_le_mul_right _ (by omega)

theorem units_mono {m n : Nat} (h : m ≤ n) : units m ≤ units n := by
  induction h with
  | refl => exact Nat.le_refl _
  | step _ ih => exact Nat.le_trans ih (units_le_succ _)

def one : Nat := 1 <<< 1074

theorem one_pos : 0 < one := by decide +kernel

/-- The value of a finite number, in units of 2^-1074. -/
def value (x : Binary64) : Int := if x.negative then -(units x.magnitude : Int) else units x.magnitude

/-- The whole number nearest to a quotient; of two equally near ones the even one. -/
def roundHalfEven (num den : Nat) : Nat :=
  if 2 * (num % den) < den then num / den
  else if den < 2 * (num % den) then num / den + 1
  else num / den + num / den % 2

/-- The magnitude nearest to `num / den` units. The quotient is brought to at most 53 bits and
rounded there; a carry moves to the next exponent by itself. -/
def nearestMagnitude (num den : Nat) : Nat :=
  let shift := (num / den).log2 + 1 - 53
  min (shift <<< 52 + roundHalfEven num (den <<< shift)) infiniteMagnitude

theorem nearestMagnitude_le (num den : Nat) : nearestMagnitude num den ≤ infiniteMagnitude :=
  Nat.min_le_right _ _

/-- The number nearest to `num / den` units, with a given sign. Too large a quotient gives an
infinity. -/
def nearest (negative : Bool) (num den : Nat) : Binary64 :=
  ⟨negative, nearestMagnitude num den, Nat.lt_of_le_of_lt (nearestMagnitude_le num den) (by decide)⟩

def ofInt (i : Int) : Binary64 := nearest (i < 0) (i.natAbs * one) 1

/-- The number nearest to plus or minus `digits * 10 ^ exponent`. -/
def ofDecimal (negative : Bool) (digits : Nat) : Int → Binary64
  | .ofNat e => nearest negative (digits * Decimal.tenTo e * one) 1
  | .negSucc e => nearest negative (digits * one) (Decimal.tenTo (e + 1))

/-- The place of a number in the order of all numbers. Both zeros have the same. -/
def rank (x : Binary64) : Int := if x.negative then -(x.magnitude : Int) else x.magnitude

/-- Whether both are numbers and the first is at most the second. -/
def le (x y : Binary64) : Bool := !x.isNaN && !y.isNaN && x.rank ≤ y.rank

theorem value_le_of_rank_le {x y : Binary64} (h : x.rank ≤ y.rank) : x.value ≤ y.value := by
  obtain ⟨sx, mx, _⟩ := x
  obtain ⟨sy, my, _⟩ := y
  cases sx <;> cases sy <;> simp only [rank, value, Bool.false_eq_true, if_true, if_false] at h ⊢
  · have := units_mono (m := mx) (n := my) (by omega)
    omega
  · obtain ⟨rfl, rfl⟩ : mx = 0 ∧ my = 0 := by omega
    simp [units]
  · omega
  · have := units_mono (m := my) (n := mx) (by omega)
    omega

/-- Whether both are numbers and the first is less than the second. -/
def lt (x y : Binary64) : Bool := !x.isNaN && !y.isNaN && x.rank < y.rank

/-- Equality of numbers: both zeros are equal, and what is not a number equals nothing. -/
def eq (x y : Binary64) : Bool := !x.isNaN && !y.isNaN && x.rank = y.rank

/-- The greatest whole number that is at most a finite number. -/
def floor (x : Binary64) : Int := x.value / (one : Int)

theorem floor_le_floor {x y : Binary64} (h : x.le y = true) : x.floor ≤ y.floor := by
  refine Int.ediv_le_ediv (Int.natCast_pos.2 one_pos) (value_le_of_rank_le ?_)
  simp only [le, Bool.and_eq_true, decide_eq_true_eq] at h
  exact h.2

def isWhole (x : Binary64) : Bool := x.isFinite && x.value % (one : Int) = 0

/-- The nearest whole number that a signed word of 64 bits can hold. -/
def clampInt64 (i : Int) : Int := max (-0x8000000000000000) (min 0x7fffffffffffffff i)

theorem clampInt64_mono {i j : Int} (h : i ≤ j) : clampInt64 i ≤ clampInt64 j := by
  simp only [clampInt64]
  omega

end Binary64

end GenExpr
