import GenExpr.Binary64.Basic

/-!
# Reading decimal numerals

A numeral is a sign, digits with at most one point among them, and an exponent of ten. It stands for
the binary64 number nearest to its exact value. Words such as `inf` are no numerals.
-/

namespace GenExpr.Decimal

structure Numeral where
  negative : Bool
  digits : Nat
  exponent : Int
  deriving DecidableEq, Repr

def natOfDigits (ds : List Char) : Nat := Nat.ofDigitChars 10 ds 0

/-- Reads an optional sign, and tells whether it is a minus. -/
def sign? : List Char → Bool × List Char
  | '-' :: r => (true, r)
  | '+' :: r => (false, r)
  | r => (false, r)

/-- Reads the exponent at the end of a numeral. -/
def exponent? : List Char → Option Int
  | [] => some 0
  | c :: r =>
    let (negative, ds) := sign? r
    if (c = 'e' ∨ c = 'E') ∧ ds ≠ [] ∧ ds.all Char.isDigit then
      some (if negative then -(natOfDigits ds : Int) else natOfDigits ds)
    else none

/-- Reads the digits after a point, if there is one. -/
def fraction (cs : List Char) : List Char × List Char :=
  match cs with
  | '.' :: r => (r.takeWhile Char.isDigit, r.dropWhile Char.isDigit)
  | r => ([], r)

/-- Reads a whole text as a numeral. There must be a digit before or after the point. -/
def numeral? (cs : List Char) : Option Numeral :=
  let (negative, r) := sign? cs
  let whole := r.takeWhile Char.isDigit
  let (part, rest) := fraction (r.dropWhile Char.isDigit)
  if whole ++ part = [] then none
  else
    match exponent? rest with
    | none => none
    | some e => some ⟨negative, natOfDigits (whole ++ part), e - part.length⟩

/-- The binary64 number nearest to a numeral. An exponent that puts every digit far above or far below
the range of binary64 is cut back first, which changes no result. -/
def Numeral.nearest (n : Numeral) : Binary64 :=
  let reach := ((Nat.toDigits 10 n.digits).length + 400 : Int)
  .ofDecimal n.negative n.digits (max (-reach) (min reach n.exponent))

def finite? (cs : List Char) : Option Binary64 :=
  match numeral? cs with
  | none => none
  | some n => if n.nearest.isFinite then some n.nearest else none

/-- Reads a text as a natural number of 64 bits: an optional plus sign and digits. -/
def count? (cs : List Char) : Option Nat :=
  let ds :=
    match cs with
    | '+' :: r => r
    | r => r
  if ds ≠ [] ∧ ds.all Char.isDigit ∧ natOfDigits ds < 1 <<< 64 then some (natOfDigits ds) else none

end GenExpr.Decimal
