import GenExpr.Binary64.Arithmetic
import GenExpr.Decimal.Layout
import GenExpr.Decimal.Numeral
import GenExpr.Error
import GenExpr.Expression.Shorthand

/-!
# Ranges

Closed intervals of numbers and of characters. A range is read from two bounds with a hyphen between
them; bounds that are both numbers make a range of numbers, and otherwise two single characters make a
range of characters.
-/

namespace GenExpr

/-- An interval of numbers whose width is finite. -/
structure NumberRange where
  min : Binary64
  max : Binary64
  min_le_max : min.le max = true
  finite_width : (max.sub min).isFinite = true
  deriving DecidableEq, Repr

structure CharRange where
  min : Char
  max : Char
  min_le_max : min ≤ max
  deriving DecidableEq, Repr

inductive Range where
  | number (r : NumberRange)
  | char (r : CharRange)
  deriving DecidableEq, Repr

namespace NumberRange

/-- The range with two bounds, if they are ordered and their distance is finite. -/
def ofBounds? (min max : Binary64) : Option NumberRange :=
  if h : min.le max = true ∧ (max.sub min).isFinite = true then some ⟨min, max, h.1, h.2⟩ else none

def contains (r : NumberRange) (x : Binary64) : Bool := r.min.le x && x.le r.max

/-- The least whole number drawn from a range, as a signed word of 64 bits. -/
def lowest (r : NumberRange) : Int := Binary64.clampInt64 r.min.floor

/-- The greatest whole number drawn from a range, as a signed word of 64 bits. -/
def highest (r : NumberRange) : Int := Binary64.clampInt64 r.max.floor

theorem lowest_le_highest (r : NumberRange) : r.lowest ≤ r.highest :=
  Binary64.clampInt64_mono (Binary64.floor_le_floor r.min_le_max)

def text (r : NumberRange) : String :=
  String.ofList (Decimal.text r.min ++ '-' :: Decimal.text r.max)

end NumberRange

namespace CharRange

/-- The range with two bounds, if they are ordered. -/
def ofBounds? (min max : Char) : Option CharRange :=
  if h : min ≤ max then some ⟨min, max, h⟩ else none

def contains (r : CharRange) (c : Char) : Bool := r.min ≤ c && c ≤ r.max

def uppercase : CharRange := ⟨'A', 'Z', by decide⟩

def text (r : CharRange) : String := String.ofList [r.min, '-', r.max]

end CharRange

namespace Range

/-- The characters of a bound: all but the hyphen. -/
def isBoundChar (c : Char) : Bool := c ≠ '-'

/-- The range with two bounds as they are written. -/
def ofBounds? (lo hi : List Char) : Option Range :=
  match Decimal.finite? lo, Decimal.finite? hi with
  | some min, some max => (NumberRange.ofBounds? min max).map .number
  | _, _ =>
    match lo, hi with
    | [min], [max] => (CharRange.ofBounds? min max).map .char
    | _, _ => none

/-- The two bounds of a text, if it has exactly two. -/
def bounds? (cs : List Char) : Option (List Char × List Char) := Expression.splitRange isBoundChar cs

def read? (cs : List Char) : Option Range :=
  match bounds? cs with
  | none => none
  | some (lo, hi) => ofBounds? lo hi

def parse (s : String) : Except Error Range :=
  match read? s.toList with
  | some r => .ok r
  | none => .error (.invalidRange s)

end Range

def NumberRange.parse (s : String) : Except Error NumberRange :=
  match Range.read? s.toList with
  | some (.number r) => .ok r
  | _ => .error (.invalidRange s)

def CharRange.parse (s : String) : Except Error CharRange :=
  match Range.read? s.toList with
  | some (.char r) => .ok r
  | _ => .error (.invalidRange s)

end GenExpr
