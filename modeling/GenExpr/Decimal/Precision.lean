import GenExpr.Binary64.Arithmetic
import GenExpr.Decimal.Logarithm

/-!
# Rounding to a precision

A precision from one up asks for the nearest multiple of it, a half going up. A precision below one asks
for a number of decimal places, which its logarithm tells, a half going to the even neighbour.
-/

namespace GenExpr.Decimal

/-- The number nearest to the decimal with a given number of places that is nearest to a finite
number. The sign stays, that of zero too. -/
def roundPlaces (places : Nat) (x : Binary64) : Binary64 :=
  .ofDecimal x.negative
    (Binary64.roundHalfEven (Binary64.units x.magnitude * tenTo places) Binary64.one) (-(places : Int))

/-- What is added to a number of places before it is cut to a whole one. It lets a precision such as
0.001 count as its three places, whichever way it was rounded. -/
def slack : Binary64 := .ofDecimal false 1 (-9)

/-- The number of places of a positive precision below one, at most a hundred: minus its logarithm and
the slack, each step rounded to binary64, without the fraction. -/
def placesOf (precision : Binary64) : Nat :=
  min 100 ((logarithm precision).neg.add slack).floor.toNat

def half : Binary64 := .ofDecimal false 5 (-1)

/-- A finite number rounded to a positive precision. -/
def roundTo (precision x : Binary64) : Binary64 :=
  if precision.lt (.ofInt 1) then roundPlaces (placesOf precision) x
  else ((x.div precision).add half).floored.mul precision

end GenExpr.Decimal
