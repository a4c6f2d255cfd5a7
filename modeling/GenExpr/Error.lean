import GenExpr.Expression.Grammar
import GenExpr.Json.Fault

/-!
# Errors

What can go wrong when a generator is built or drawn, as causes. The wording is in `Error.message`, and
`Error.category` sorts the causes for callers that branch on them. Errors pass through every generator
and through user code unaltered: `Error.custom` gives back an error that it is handed.
-/

namespace GenExpr

inductive Reason where
  | noExpressions
  | notANumber (text : String)
  | precisionNotPositive
  | notACount (text : String)
  | nothingToRepeat
  | notACollection (option : String)
  | emptyCollection (option : String)
  | emptyAlphabet
  deriving DecidableEq, Repr

inductive Error where
  | malformed (failure : Expression.Failure)
  | unknownKind (kind : String)
  | missingCollection (option : String)
  | json (fault : Json.Fault)
  | invalidRange (text : String)
  | invalidArgument (kind : String) (reason : Reason)
  /-- No expressions are given to iterate over. -/
  | nothingToIterate
  /-- The number of iterations is zero. -/
  | noIterations
  /-- An error of user code, in its own words. -/
  | raised (message : String)
  /-- The kinds of a registry build each other without end. -/
  | endless (expression : String)
  deriving DecidableEq, Repr

inductive Category where
  | malformedExpression
  | generatorNotFound
  | collectionNotFound
  | parse
  | invalidRange
  | invalidArgument
  | argument
  | custom
  deriving DecidableEq, Repr

/-- What user code raises: words of its own, or an error it was handed. -/
inductive Raised where
  | words (message : String)
  | error (e : Error)
  deriving DecidableEq, Repr

def Reason.message : Reason → String
  | .noExpressions => "expected at least one expression"
  | .notANumber text => Text.quoted text ++ " is not a number"
  | .precisionNotPositive => "precision must be positive"
  | .notACount text => Text.quoted text ++ " is not a count"
  | .nothingToRepeat => "expected an expression to repeat"
  | .notACollection option => "option " ++ Text.quoted option ++ " is not a collection"
  | .emptyCollection option => "collection " ++ Text.quoted option ++ " is empty"
  | .emptyAlphabet => "alphabet is empty"

namespace Error

/-- The error that user code raises. An error of this library is not wrapped again. -/
def custom : Raised → Error
  | .words message => raised message
  | .error e => e

def category : Error → Category
  | malformed _ => .malformedExpression
  | unknownKind _ => .generatorNotFound
  | missingCollection _ => .collectionNotFound
  | json _ => .parse
  | invalidRange _ => .invalidRange
  | invalidArgument _ _ => .invalidArgument
  | nothingToIterate => .argument
  | noIterations => .argument
  | raised _ => .custom
  | endless _ => .custom

def message : Error → String
  | malformed failure =>
    "Malformed expression " ++ Text.quoted failure.text ++ ": " ++ failure.message
  | unknownKind kind => "Generator \"" ++ kind ++ "\" not found"
  | missingCollection option => "Collection \"" ++ option ++ "\" not found in options"
  | json fault => "Invalid JSON: " ++ fault.message
  | invalidRange text => "Invalid range: " ++ Text.quoted text
  | invalidArgument kind reason =>
    "Invalid argument for \"" ++ kind ++ "\": " ++ reason.message
  | nothingToIterate => "no generator expressions given"
  | noIterations => "iterations must be positive"
  | raised message => message
  | endless expression => "endless expression " ++ Text.quoted expression

/-- The words of what lies under an error, for those that report something else's failure. -/
def source? : Error → Option String
  | malformed failure => some failure.message
  | json fault => some fault.message
  | raised message => some message
  | _ => none

@[simp] theorem custom_error (e : Error) : custom (.error e) = e := rfl

end Error

end GenExpr
