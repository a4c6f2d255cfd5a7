import GenExpr.Binary64.Basic

/-!
# Shortest digits

The fewest decimal digits that read back as a given binary64 number. For each count of digits from one
to seventeen the two neighbours of the number on that decimal grid are tried in exact arithmetic: one
that lies among the reals that round to the number is taken, the nearer one if both do.
-/

namespace GenExpr.Decimal

/-- The digits of a positive number and the power of ten of the last of them. -/
structure Digits where
  digits : Nat
  exponent : Int
  deriving DecidableEq, Repr

/-- Which of two equally near neighbours is taken. -/
inductive Tie where
  | toEven
  | up
  deriving DecidableEq, Repr

def digitCount (n : Nat) : Nat := (Nat.toDigits 10 n).length

/-- The largest `p` with `10 ^ p ≤ num / den`, for a positive quotient. -/
def decimalExponent (num den : Nat) : Int :=
  if den ≤ num then (digitCount (num / den) : Int) - 1
  else -(digitCount ((den - 1) / num) : Int)

/-- Whether `digits * 10 ^ exponent` rounds to a magnitude: it lies between the midpoints to the
magnitude's two neighbours, the midpoints themselves included if the magnitude is even. -/
def roundsTo (m : Nat) (digits : Nat) (exponent : Int) : Bool :=
  let num := 2 * digits * tenTo exponent.toNat * Binary64.one
  let den := tenTo (-exponent).toNat
  let low := (Binary64.units (m - 1) + Binary64.units m) * den
  let high := (Binary64.units m + Binary64.units (m + 1)) * den
  if m % 2 = 0 then low ≤ num && num ≤ high else low < num && num < high

/-- The neighbours of a magnitude with a given power of ten, if one of them rounds to it. -/
def onGrid? (tie : Tie) (m : Nat) (exponent : Int) : Option Digits :=
  let num := Binary64.units m * tenTo (-exponent).toNat
  let den := Binary64.one * tenTo exponent.toNat
  let below := num / den
  let rest := 2 * (num % den)
  let nearerBelow := rest < den || (rest = den && tie = .toEven && below % 2 = 0)
  match roundsTo m below exponent, roundsTo m (below + 1) exponent with
  | true, true => some ⟨if nearerBelow then below else below + 1, exponent⟩
  | true, false => some ⟨below, exponent⟩
  | false, true => some ⟨below + 1, exponent⟩
  | false, false => none

def Digits.trimmed : Nat → Digits → Digits
  | 0, d => d
  | n + 1, d =>
    if d.digits % 10 = 0 ∧ d.digits ≠ 0 then trimmed n ⟨d.digits / 10, d.exponent + 1⟩ else d

/-- The shortest digits of a positive finite magnitude. -/
def shortest (tie : Tie) (m : Nat) : Digits :=
  let top := decimalExponent (Binary64.units m) Binary64.one
  match (List.range 17).findSome? fun n : Nat => onGrid? tie m (top - (n : Int)) with
  | some d => d.trimmed 17
  | none => ⟨0, 0⟩

end GenExpr.Decimal
