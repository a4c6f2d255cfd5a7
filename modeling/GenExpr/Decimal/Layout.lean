import GenExpr.Binary64.Arithmetic
import GenExpr.Decimal.Shortest

/-!
# Layouts of a number

How the shortest digits of a number are set down: with the point in its place or with an exponent. The
three layouts differ in where exponents begin and in their spelling.
-/

namespace GenExpr.Decimal

/-- The decisions of one layout. A number `0.d₁d₂… * 10 ^ k` is written without an exponent for `k`
from `least` to `greatest`. -/
structure Layout where
  least : Int
  greatest : Int
  /-- Whether a positive exponent has a sign. -/
  plus : Bool
  tie : Tie

def Layout.text : Layout := ⟨-4, 16, false, .toEven⟩

def Layout.json : Layout := ⟨-4, 16, true, .toEven⟩

def Layout.debug : Layout := ⟨-3, 16, false, .up⟩

def ofInt : Int → List Char
  | .ofNat n => Nat.toDigits 10 n
  | .negSucc n => '-' :: Nat.toDigits 10 (n + 1)

def Layout.digits (l : Layout) (d : Digits) : List Char :=
  let ds := Nat.toDigits 10 d.digits
  let k := (ds.length : Int) + d.exponent
  if 0 ≤ d.exponent ∧ k ≤ l.greatest then
    ds ++ List.replicate d.exponent.toNat '0' ++ ['.', '0']
  else if 0 < k ∧ k ≤ l.greatest then
    ds.take k.toNat ++ '.' :: ds.drop k.toNat
  else if l.least ≤ k ∧ k ≤ 0 then
    '0' :: '.' :: (List.replicate (-k).toNat '0' ++ ds)
  else
    let mantissa := if ds.length ≤ 1 then ds else ds.take 1 ++ '.' :: ds.drop 1
    mantissa ++ 'e' :: ((if l.plus ∧ 0 < k - 1 then ['+'] else []) ++ ofInt (k - 1))

def Layout.write (l : Layout) (x : Binary64) : List Char :=
  if x.isNaN then ['N', 'a', 'N']
  else
    (if x.negative then ['-'] else []) ++
      (if x.isInfinite then ['i', 'n', 'f']
      else if x.magnitude = 0 then ['0', '.', '0']
      else l.digits (shortest l.tie x.magnitude))

/-- The magnitude of 2^53, below which every whole number is written as an integer. -/
def exactLimit : Nat := Binary64.one <<< 53

/-- The text of a number: a whole number below 2^53 has no point and no sign of zero. -/
def text (x : Binary64) : List Char :=
  if x.isWhole ∧ x.value.natAbs < exactLimit then ofInt x.floor else Layout.text.write x

end GenExpr.Decimal
