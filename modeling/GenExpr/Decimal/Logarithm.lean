import GenExpr.Decimal.Shortest

/-!
# Common logarithms

The logarithm to base ten of a positive number, rounded once to binary64. Its whole part is a number of
decimal digits. The binary places of its fraction are found one after another: squaring a number doubles
its logarithm, and the next place tells whether the square has passed ten.
-/

namespace GenExpr.Decimal

/-- How many binary places of a fraction are found. The logarithm of a number next to one has up to 54
zeros before the 53 bits that are kept; the places after those decide how they are rounded. -/
def fractionPlaces : Nat := 160

/-- How many binary places the numbers have that are squared. Cutting off the further places of a square
makes a relative error, which every later squaring doubles. When the whole fraction is found it is still
far too small to show. -/
def finePlaces : Nat := 320

/-- Ten, as a whole number of its last binary place. -/
def fineTen : Nat := 10 <<< finePlaces

/-- The first `n` binary places of the logarithm of a number from one up to ten, as a whole number. -/
def fractionBits : Nat → Nat → Nat
  | 0, _ => 0
  | n + 1, r =>
    let square := (r * r) >>> finePlaces
    if fineTen ≤ square then 1 <<< n + fractionBits n (square / 10) else fractionBits n square

/-- The logarithm of a quotient that is at least one, as a whole number of its last binary place. -/
def logarithmBits (num den : Nat) : Nat :=
  let whole := (decimalExponent num den).toNat
  whole <<< fractionPlaces + fractionBits fractionPlaces ((num <<< finePlaces) / (den * tenTo whole))

/-- The logarithm to base ten of a positive finite number. -/
def logarithm (x : Binary64) : Binary64 :=
  let u := Binary64.units x.magnitude
  if Binary64.one ≤ u then
    .nearest false (logarithmBits u Binary64.one * Binary64.one) (1 <<< fractionPlaces)
  else .nearest true (logarithmBits Binary64.one u * Binary64.one) (1 <<< fractionPlaces)

end GenExpr.Decimal
