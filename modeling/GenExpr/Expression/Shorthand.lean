/-!
# Shorthands

The four short forms of an expression, recognised by their characters alone: a repetition
`12*(inner)`, a numeric range `-2.5-1`, a character range `A-Z` and a quoted literal `"text"`. The
splitting of a range at its hyphen is shared with the reader of range arguments, which allows more
characters in a bound.
-/

namespace GenExpr.Expression

/-- Reads a bound: an optional minus sign and at least one character of a class. -/
def bound (p : Char → Bool) (cs : List Char) : Option (List Char × List Char) :=
  match cs with
  | '-' :: r =>
    if r.takeWhile p = [] then none else some ('-' :: r.takeWhile p, r.dropWhile p)
  | r => if r.takeWhile p = [] then none else some (r.takeWhile p, r.dropWhile p)

theorem eq_of_bound {p : Char → Bool} {cs b r : List Char} (h : bound p cs = some (b, r)) :
    cs = b ++ r := by
  unfold bound at h
  split at h <;> split at h <;> simp only [Option.some.injEq, Prod.mk.injEq, reduceCtorEq] at h
  · obtain ⟨rfl, rfl⟩ := h
    simp
  · obtain ⟨rfl, rfl⟩ := h
    simp

/-- Splits a text into two bounds of a class with a hyphen between them. -/
def splitRange (p : Char → Bool) (cs : List Char) : Option (List Char × List Char) :=
  match bound p cs with
  | some (lo, '-' :: r) =>
    match bound p r with
    | some (hi, []) => some (lo, hi)
    | _ => none
  | _ => none

theorem eq_of_splitRange {p : Char → Bool} {cs lo hi : List Char}
    (h : splitRange p cs = some (lo, hi)) : cs = lo ++ '-' :: hi := by
  unfold splitRange at h
  split at h
  · rename_i hlo
    split at h
    · rename_i hhi
      simp only [Option.some.injEq, Prod.mk.injEq] at h
      obtain ⟨rfl, rfl⟩ := h
      rw [eq_of_bound hlo, eq_of_bound hhi, List.append_nil]
    · simp at h
  · simp at h

/-- The characters of a bound in the numeric shorthand. -/
def isNumeric (c : Char) : Bool := c.isDigit || c = '.'

/-- Whether a text is a numeric range such as `1-10` or `-20--10`. -/
def isNumberRange (cs : List Char) : Bool := (splitRange isNumeric cs).isSome

/-- Whether a text is two ASCII letters with a hyphen between them. -/
def isCharRange : List Char → Bool
  | [a, '-', b] => a.isAlpha && b.isAlpha
  | _ => false

/-- Whether a text of at least three characters begins and ends with a double quote. -/
def isQuoted : List Char → Bool
  | '"' :: r => 2 ≤ r.length && r.getLast? = some '"'
  | _ => false

/-- The count and the inner text of a repetition. The last parenthesis closes it, whatever the inner
text holds. -/
def repetition? (cs : List Char) : Option (List Char × List Char) :=
  if cs.takeWhile Char.isDigit = [] then none
  else
    match cs.dropWhile Char.isDigit with
    | '*' :: '(' :: r =>
      if 2 ≤ r.length ∧ r.getLast? = some ')' then some (cs.takeWhile Char.isDigit, r.dropLast)
      else none
    | _ => none

theorem eq_of_repetition {cs count inner : List Char} (h : repetition? cs = some (count, inner)) :
    cs = count ++ '*' :: '(' :: (inner ++ [')']) := by
  unfold repetition? at h
  split at h
  · simp at h
  · split at h
    · rename_i r hr
      split at h
      · rename_i hlast
        simp only [Option.some.injEq, Prod.mk.injEq] at h
        obtain ⟨rfl, rfl⟩ := h
        obtain ⟨init, rfl⟩ := List.getLast?_eq_some_iff.1 hlast.2
        rw [List.dropLast_concat, ← hr, List.takeWhile_append_dropWhile]
      · simp at h
    · simp at h

end GenExpr.Expression
