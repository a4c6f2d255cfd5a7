import GenExpr.Binary64.Basic

/-!
# Arithmetic on binary64 numbers

Each operation is the exact one followed by one rounding. Infinities and what is not a number follow
IEEE 754; every result that is not a number is the same one.
-/

namespace GenExpr.Binary64

def neg (x : Binary64) : Binary64 := ⟨!x.negative, x.magnitude, x.bounded⟩

/-- The sum. An exact zero is positive unless both operands are negative. -/
def add (x y : Binary64) : Binary64 :=
  if x.isNaN || y.isNaN then nan
  else if x.isInfinite then
    if y.isInfinite && x.negative != y.negative then nan else x
  else if y.isInfinite then y
  else if x.value + y.value = 0 then zero (x.negative && y.negative)
  else nearest (x.value + y.value < 0) (x.value + y.value).natAbs 1

def sub (x y : Binary64) : Binary64 := add x (neg y)

def mul (x y : Binary64) : Binary64 :=
  let negative := x.negative != y.negative
  if x.isNaN || y.isNaN then nan
  else if x.isInfinite || y.isInfinite then
    if x.magnitude = 0 || y.magnitude = 0 then nan else infinity negative
  else nearest negative (units x.magnitude * units y.magnitude) one

def div (x y : Binary64) : Binary64 :=
  let negative := x.negative != y.negative
  if x.isNaN || y.isNaN then nan
  else if x.isInfinite then
    if y.isInfinite then nan else infinity negative
  else if y.isInfinite then zero negative
  else if y.magnitude = 0 then
    if x.magnitude = 0 then nan else infinity negative
  else nearest negative (units x.magnitude * one) (units y.magnitude)

/-- The greatest whole number that is at most a number, as a number. A zero keeps its sign. -/
def floored (x : Binary64) : Binary64 :=
  if !x.isFinite || x.magnitude = 0 then x else ofInt x.floor

end GenExpr.Binary64
