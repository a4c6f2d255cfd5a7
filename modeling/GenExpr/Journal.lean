import GenExpr.Text.Quoted

/-!
# The journal

What is noted down while kinds are registered, nodes are built and rows are drawn.
-/

namespace GenExpr

inductive Record where
  | registering (name : String)
  /-- A repetition is written out. -/
  | expanding (expression : String)
  | built (kind expression : String) (asynchronous : Bool)
  | iterating (expressions iterations : Nat) (asynchronous : Bool)
  /-- A draw fails while others are pending, and none is issued after it. -/
  | refused (row : Nat)
  | pending (rows : Nat)
  deriving DecidableEq, Repr

namespace Record

/-- The level of a record: what happens to kinds and nodes is for debugging, the rest traces a run. -/
def level : Record → String
  | registering _ => "DEBUG"
  | built _ _ _ => "DEBUG"
  | _ => "TRACE"

def flag (b : Bool) : String := if b then "true" else "false"

def words : Record → String
  | registering name => "registering generator kind " ++ Text.quoted name
  | expanding expression => "rewriting " ++ Text.quoted expression ++ " as repeat"
  | built kind expression asynchronous =>
    "built " ++ Text.quoted kind ++ " generator for " ++ Text.quoted expression ++
      " (async: " ++ flag asynchronous ++ ")"
  | iterating expressions iterations asynchronous =>
    "iterating " ++ toString expressions ++ " expression(s) " ++ toString iterations ++
      " times (async: " ++ flag asynchronous ++ ")"
  | refused row => "draw " ++ toString row ++ " failed, no further draws issued"
  | pending rows => toString rows ++ " draws pending"

def line (r : Record) : String := r.level ++ " " ++ r.words

end Record

end GenExpr
