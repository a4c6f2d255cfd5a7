import GenExpr.Error
import GenExpr.Expression.Shorthand

/-!
# Parsing expressions

An expression is first tried as each of the shorthands, in a fixed order, and then read in its general
form. A repetition stands for the general form that it is written out to; the other shorthands give the
whole expression to one kind as its argument.
-/

namespace GenExpr.Expression

def repeated (count inner : List Char) : List Char :=
  ['r', 'e', 'p', 'e', 'a', 't', ':'] ++ count ++ [':', '('] ++ inner ++ [')']

/-- An expression with a repetition written out. -/
def expand (expression : String) : String :=
  match repetition? expression.toList with
  | some (count, inner) => String.ofList (repeated count inner)
  | none => expression

def isRepetition (expression : String) : Bool := (repetition? expression.toList).isSome

/-- The kind that a shorthand other than a repetition belongs to. -/
def shorthand? (cs : List Char) : Option String :=
  if isNumberRange cs then some "number"
  else if isCharRange cs then some "char"
  else if isQuoted cs then some "literal"
  else none

/-- Reads an expression that is not a repetition. -/
def readExpanded (expression : String) : Except Error Invocation :=
  match shorthand? expression.toList with
  | some kind => .ok ⟨kind, [expression]⟩
  | none =>
    match general expression with
    | .error failure => .error (.malformed failure)
    | .ok invocation => .ok invocation

def parse (expression : String) : Except Error Invocation := readExpanded (expand expression)

end GenExpr.Expression
