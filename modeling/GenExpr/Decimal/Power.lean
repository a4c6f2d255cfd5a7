/-!
# Powers of ten

The weights of decimal digits.
-/

namespace GenExpr.Decimal

def tenTo (k : Nat) : Nat := Nat.pow 10 k

theorem tenTo_pos (k : Nat) : 0 < tenTo k := Nat.pow_pos (by decide)

end GenExpr.Decimal
