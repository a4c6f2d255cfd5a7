import GenExpr.Binary64.Arithmetic
import GenExpr.Decimal.Numeral
import GenExpr.Json.Fault

/-!
# Numbers in JSON

How the reader reads a number. Digits are gathered as long as they make a word of 64 bits; the others
before the point count as powers of ten and the others after it are dropped. A number with a point, an
exponent or too many digits is scaled by a power of ten in binary64, which rounds up to three times.
-/

namespace GenExpr.Json

/-- A number as it is written: a whole number of 64 bits, with its sign, or a float. -/
inductive Number where
  | natural (n : Nat)
  | negative (n : Nat)
  | float (x : Binary64)
  deriving DecidableEq, Repr

def maxWord : Nat := 1 <<< 64 - 1

/-- The greatest and least exponents that are kept apart. -/
def clampExponent (e : Int) : Int := max (-0x80000000) (min 0x7fffffff e)

def digit (c : Char) : Nat := c.toNat - '0'.toNat

/-- The power of ten nearest to an exponent of at most 308. -/
def powerOfTen (k : Nat) : Binary64 := .ofDecimal false 1 k

/-- Divides by 10^308 while the exponent is below -308 and the number is not zero. -/
def lift : Nat → Binary64 → Int → Binary64 × Int
  | 0, x, e => (x, e)
  | n + 1, x, e =>
    if -308 ≤ e ∨ x.magnitude = 0 then (x, e) else lift n (x.div (powerOfTen 308)) (e + 308)

/-- A gathered number times a power of ten, unless that is too large. -/
def scale (significand : Nat) (exponent : Int) : Option Binary64 :=
  let x := Binary64.ofInt significand
  if 308 < exponent then
    if x.magnitude = 0 then some x else none
  else if 0 ≤ exponent then
    let y := x.mul (powerOfTen exponent.toNat)
    if y.isInfinite then none else some y
  else
    let (y, e) := lift (exponent.natAbs / 308) x exponent
    if -308 ≤ e then some (y.div (powerOfTen e.natAbs)) else some y

def float (negative : Bool) (significand : Nat) (exponent : Int) (rest : List Char) :
    Except Stop (Number × List Char) :=
  match scale significand exponent with
  | none => .error (.before .numberOutOfRange rest)
  | some x => .ok (.float (if negative then x.neg else x), rest)

/-- Gathers the digits of an exponent, as long as they make a signed word of 32 bits. -/
def gatherExponent : Nat → List Char → Option Nat × List Char
  | n, [] => (some n, [])
  | n, c :: r =>
    if c.isDigit then
      if n * 10 + digit c < 1 <<< 31 then gatherExponent (n * 10 + digit c) r else (none, r)
    else (some n, c :: r)

/-- Reads an exponent, from after its letter, and ends the number. -/
def exponent (negative : Bool) (significand : Nat) (start : Int) (cs : List Char) :
    Except Stop (Number × List Char) :=
  let (down, cs) := Decimal.sign? cs
  match cs with
  | [] => .error (.ended .value)
  | c :: r =>
    if c.isDigit then
      match gatherExponent (digit c) r with
      | (some e, r) =>
        float negative significand (clampExponent (if down then start - e else start + e)) r
      | (none, r) =>
        if significand ≠ 0 ∧ ¬ down then .error (.before .numberOutOfRange r)
        else float negative 0 0 (r.dropWhile Char.isDigit)
    else .error (.at .invalidNumber (c :: r))

def ending (negative : Bool) (significand : Nat) (start : Int) :
    List Char → Except Stop (Number × List Char)
  | [] => float negative significand start []
  | c :: r =>
    if c = 'e' ∨ c = 'E' then exponent negative significand start r
    else float negative significand start (c :: r)

/-- Gathers digits as long as they make a word of 64 bits, and counts them. -/
def gather : Nat → Nat → List Char → Nat × Nat × List Char
  | significand, count, [] => (significand, count, [])
  | significand, count, c :: r =>
    if c.isDigit ∧ significand * 10 + digit c ≤ maxWord then
      gather (significand * 10 + digit c) (count + 1) r
    else (significand, count, c :: r)

def startsWithDigit : List Char → Bool
  | [] => false
  | c :: _ => c.isDigit

/-- Reads the digits after a point and what follows them. -/
def decimals (negative : Bool) (significand : Nat) (start : Int) (cs : List Char) :
    Except Stop (Number × List Char) :=
  let (significand, count, rest) := gather significand 0 cs
  if startsWithDigit rest then
    ending negative significand (start - count) (rest.dropWhile Char.isDigit)
  else if count = 0 then
    match rest with
    | [] => .error (.ended .value)
    | r => .error (.at .invalidNumber r)
  else ending negative significand (start - count) rest

/-- Ends a number whose digits before the point made a word: it is whole unless more follows. -/
def whole (negative : Bool) (significand : Nat) :
    List Char → Except Stop (Number × List Char)
  | '.' :: r => decimals negative significand 0 r
  | cs =>
    match cs with
    | 'e' :: _ | 'E' :: _ => ending negative significand 0 cs
    | _ =>
      if ¬ negative then .ok (.natural significand, cs)
      else if 0 < significand ∧ significand ≤ 1 <<< 63 then .ok (.negative significand, cs)
      else .ok (.float (Binary64.ofInt significand).neg, cs)

/-- Ends a number with more digits before the point than make a word. -/
def long (negative : Bool) (significand : Nat) (cs : List Char) :
    Except Stop (Number × List Char) :=
  let further := (cs.takeWhile Char.isDigit).length
  match cs.dropWhile Char.isDigit with
  | '.' :: r => decimals negative significand further r
  | r => ending negative significand further r

/-- Reads a number without its sign. A zero at the front stands alone. -/
def unsigned (negative : Bool) : List Char → Except Stop (Number × List Char)
  | [] => .error (.ended .value)
  | c :: r =>
    if c = '0' then
      if startsWithDigit r then .error (.at .invalidNumber r) else whole negative 0 r
    else if c.isDigit then
      let (significand, _, rest) := gather (digit c) 1 r
      if startsWithDigit rest then long negative significand rest
      else whole negative significand rest
    else .error (.at .invalidNumber (c :: r))

/-- Reads a number that begins with a minus sign or a digit. -/
def number : List Char → Except Stop (Number × List Char)
  | '-' :: r => unsigned true r
  | cs => unsigned false cs

end GenExpr.Json
