/-!
# Builtin kinds

The ten kinds that every registry starts with: their names and the arguments that they take where none
is given. How they are built is in `GenExpr.Node.Build`.
-/

namespace GenExpr

inductive Builtin where
  | string
  | number
  | int
  | char
  | boolean
  | oneOf
  | array
  | repetition
  | literal
  | entry
  deriving DecidableEq, Repr

namespace Builtin

def all : List Builtin :=
  [string, number, int, char, boolean, oneOf, array, repetition, literal, entry]

theorem mem_all (b : Builtin) : b ∈ all := by cases b <;> decide

def name : Builtin → String
  | string => "string"
  | number => "number"
  | int => "int"
  | char => "char"
  | boolean => "boolean"
  | oneOf => "oneOf"
  | array => "array"
  | repetition => "repeat"
  | literal => "literal"
  | entry => "entry"

def debug : Builtin → String
  | string => "String"
  | number => "Number"
  | int => "Int"
  | char => "Char"
  | boolean => "Boolean"
  | oneOf => "OneOf"
  | array => "Array"
  | repetition => "Repeat"
  | literal => "Literal"
  | entry => "Entry"

/-- The first argument where none is given or it is empty. -/
def defaultArgument : Builtin → String
  | string => "10-20"
  | number => "0-1"
  | int => "0-10"
  | char => "A-Z"
  | boolean => "0.5"
  | entry => "collection"
  | _ => ""

def ofName? (name : String) : Option Builtin := all.find? fun b => b.name = name

def firstArgument (b : Builtin) (arguments : List String) : String :=
  match arguments with
  | a :: _ => if a = "" then b.defaultArgument else a
  | [] => b.defaultArgument

end Builtin

end GenExpr
