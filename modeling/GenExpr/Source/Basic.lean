import GenExpr.Deferred.Basic
import GenExpr.Letters
import GenExpr.Value.Text

/-!
# Sources

What a generator draws from, once its expression has been read: a tree whose inner nodes combine the
draws of others. A source never changes. What changes from draw to draw, the number of draws of each
leaf, is kept apart, so each leaf has a number of its own.
-/

namespace GenExpr

inductive LeafDraw where
  | ready (v : Value)
  | fail (e : Error)
  /-- A future that has settled. -/
  | settled (outcome : Except Error Value)
  /-- A future that waits for a gate of its own. -/
  | gated (outcome : Except Error Value)

/-- A source of a custom kind: what each of its draws does, counted from zero, and whether it calls
itself asynchronous. -/
structure Leaf where
  asynchronous : Bool
  draw : Nat → LeafDraw

inductive Collection where
  | items (vs : List Value) (nonempty : vs ≠ [])
  | chars (cs : List Char) (nonempty : cs ≠ [])

inductive Source where
  /-- A text of random letters, of a length from a range. -/
  | letters (length : NumberRange) (letters : Letters)
  /-- The text of another draw. -/
  | text (inner : Source)
  | number (range : NumberRange) (precision : Option Binary64)
  | int (range : NumberRange)
  | char (range : CharRange)
  | boolean (bias : Binary64)
  /-- The draw of one source out of several. -/
  | oneOf (first : Source) (others : List Source)
  | array (items : List Source)
  /-- The texts of a number of draws, put together. -/
  | times (count : Nat) (inner : Source)
  | literal (v : Value)
  | entry (collection : Collection)
  | leaf (id : Nat) (leaf : Leaf)
  /-- A draw handed to a function. -/
  | adapted (inner : Source) (f : Value → Except Error Value)

namespace Source

mutual

/-- Whether a leaf that can be drawn calls itself asynchronous. -/
def isAsync : Source → Bool
  | text inner => isAsync inner
  | oneOf first others => isAsync first || anyAsync others
  | array items => anyAsync items
  | times _ inner => isAsync inner
  | leaf _ l => l.asynchronous
  | adapted inner _ => isAsync inner
  | _ => false

/-- Whether one of several sources is asynchronous. -/
def anyAsync : List Source → Bool
  | [] => false
  | s :: rest => isAsync s || anyAsync rest

end

end Source

end GenExpr
