import GenExpr.Binary64.Basic

/-!
# Values

What a generator yields: the values of JSON, with whole numbers of 64 bits apart from other numbers. A
map lists its members in ascending order of their keys, each key once; `GenExpr.Entries` has the
operations that keep it so.
-/

namespace GenExpr

inductive Value where
  | null
  | bool (b : Bool)
  | int (i : Int)
  | float (x : Binary64)
  | str (s : String)
  | array (items : List Value)
  | map (members : List (String × Value))
  deriving Repr, Inhabited

namespace Value

mutual

/-- Equality of values. Numbers of different kinds differ, and floats compare as numbers. -/
def eq : Value → Value → Bool
  | null, null => true
  | bool a, bool b => a = b
  | int a, int b => a = b
  | float a, float b => a.eq b
  | str a, str b => a = b
  | array a, array b => eqItems a b
  | map a, map b => eqMembers a b
  | _, _ => false

def eqItems : List Value → List Value → Bool
  | [], [] => true
  | a :: as, b :: bs => eq a b && eqItems as bs
  | _, _ => false

def eqMembers : List (String × Value) → List (String × Value) → Bool
  | [], [] => true
  | (k, a) :: as, (l, b) :: bs => k = l && eq a b && eqMembers as bs
  | _, _ => false

end

/-- The number that a number value stands for, rounded to binary64. -/
def number? : Value → Option Binary64
  | int i => some (.ofInt i)
  | float x => some x
  | _ => none

def int? : Value → Option Int
  | int i => some i
  | _ => none

def str? : Value → Option String
  | str s => some s
  | _ => none

def items? : Value → Option (List Value)
  | array items => some items
  | _ => none

/-- Null, false, zero, what is not a number and the empty string are not truthy. -/
def truthy : Value → Bool
  | null => false
  | bool b => b
  | int i => i ≠ 0
  | float x => x.magnitude ≠ 0 && !x.isNaN
  | str s => s ≠ ""
  | array _ => true
  | map _ => true

end Value

end GenExpr
