/-!
# Places in a text

Where a fault was noticed, as a line and a column. Lines count from one. The column counts what was
read since the last line feed: characters in expressions, bytes in JSON.
-/

namespace GenExpr.Text

structure Place where
  line : Nat
  column : Nat
  deriving DecidableEq, Repr

def lineFeeds (cs : List Char) : Nat := cs.count '\n'

/-- How many characters follow the last line feed of a text, or the text's length. -/
def sinceLineFeed (cs : List Char) : Nat := (cs.reverse.takeWhile (· ≠ '\n')).length

/-- The place of the character that follows `read`, both counted from one. -/
def Place.following (read : List Char) : Place :=
  ⟨lineFeeds read + 1, sinceLineFeed read + 1⟩

/-- The place reached when a number of bytes has been read from here, a character at a time. A
character that is read in part only widens the column. -/
def Place.advance (p : Place) : List Char → Nat → Place
  | [], _ => p
  | c :: cs, n =>
    if n < c.utf8Size then ⟨p.line, p.column + n⟩
    else if c = '\n' then advance ⟨p.line + 1, 0⟩ cs (n - 1)
    else advance ⟨p.line, p.column + c.utf8Size⟩ cs (n - c.utf8Size)

/-- The place of the end of the first `n` bytes of a text: lines from one, and the column is the
number of bytes after the last line feed. -/
def Place.ofBytes (text : List Char) (n : Nat) : Place := Place.advance ⟨1, 0⟩ text n

def byteLength (cs : List Char) : Nat := cs.foldr (fun c n => c.utf8Size + n) 0

end GenExpr.Text
