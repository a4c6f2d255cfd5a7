import GenExpr.Entropy.Sampling

/-!
# Letters

The characters that random strings are made of: those of a range, or an alphabet given by its
characters. A repeated character of an alphabet is drawn that much more often.
-/

namespace GenExpr

structure Alphabet where
  chars : List Char
  nonempty : chars ≠ []
  deriving DecidableEq, Repr

/-- The characters that random strings are made of. -/
inductive Letters where
  | range (r : CharRange)
  | alphabet (a : Alphabet)
  deriving DecidableEq, Repr

namespace Alphabet

/-- The alphabet of a list of characters, unless the list is empty. -/
def ofChars? (chars : List Char) : Option Alphabet :=
  if h : chars ≠ [] then some ⟨chars, h⟩ else none

def random (a : Alphabet) : StateM Entropy Char := Sampling.pick a.chars a.nonempty

end Alphabet

namespace Letters

/-- The letters of a text: those of a range of characters if the text writes one, and otherwise the
characters of the text. -/
def parse (s : String) : Except Error Letters :=
  match CharRange.parse s with
  | .ok r => .ok (.range r)
  | .error _ =>
    match Alphabet.ofChars? s.toList with
    | some a => .ok (.alphabet a)
    | none => .error (.invalidArgument "letters" .emptyAlphabet)

def standard : Letters := .range .uppercase

def random : Letters → StateM Entropy Char
  | range r => r.random
  | alphabet a => a.random

def randomChars (l : Letters) : Nat → StateM Entropy (List Char)
  | 0 => pure []
  | n + 1 => do
    let c ← l.random
    return c :: (← randomChars l n)

end Letters

end GenExpr
