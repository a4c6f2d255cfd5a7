import GenExpr.Decimal.Layout
import GenExpr.Text.Place
import GenExpr.Text.Quoted

/-!
# Faults in JSON texts

Why a text is not JSON, or is JSON of the wrong shape, and where that was noticed. `Stop` is a fault
as a reader meets it, with the text that is left; `Fault` is the fault with its line and column.
-/

namespace GenExpr.Json

inductive Inside where
  | value
  | list
  | object
  | string
  deriving DecidableEq, Repr

/-- What was found where another shape is wanted. -/
inductive Found where
  | null
  | boolean (b : Bool)
  | integer (i : Int)
  | float (x : Binary64)
  | string (s : String)
  | sequence
  | map
  deriving DecidableEq, Repr

inductive Cause where
  | ended (inside : Inside)
  | expectedValue
  | expectedWord
  | invalidNumber
  | numberOutOfRange
  | invalidEscape
  | controlCharacter
  | loneSurrogate
  | unpairedEscape
  | keyNotString
  | expectedColon
  | expectedListEnd
  | expectedObjectEnd
  | trailingComma
  | trailingCharacters
  | tooDeep
  /-- A value of another type than the one wanted. -/
  | wrongType (found : Found) (wanted : String)
  /-- A value of the right type that is not allowed. -/
  | wrongValue (found : Found) (wanted : String)
  | repeatedMember (name : String)
  /-- A reason from outside JSON, in its own words. -/
  | rejected (reason : String)
  deriving DecidableEq, Repr

def Inside.message : Inside → String
  | .value => "a value"
  | .list => "a list"
  | .object => "an object"
  | .string => "a string"

def Found.message : Found → String
  | .null => "null"
  | .boolean b => "boolean `" ++ (if b then "true" else "false") ++ "`"
  | .integer i => "integer `" ++ String.ofList (Decimal.ofInt i) ++ "`"
  | .float x => "floating point `" ++ String.ofList (Decimal.Layout.json.write x) ++ "`"
  | .string s => "string " ++ Text.quoted s
  | .sequence => "sequence"
  | .map => "map"

def Cause.message : Cause → String
  | .ended inside => "EOF while parsing " ++ inside.message
  | .expectedValue => "expected value"
  | .expectedWord => "expected ident"
  | .invalidNumber => "invalid number"
  | .numberOutOfRange => "number out of range"
  | .invalidEscape => "invalid escape"
  | .controlCharacter => "control character (\\u0000-\\u001F) found while parsing a string"
  | .loneSurrogate => "lone leading surrogate in hex escape"
  | .unpairedEscape => "unexpected end of hex escape"
  | .keyNotString => "key must be a string"
  | .expectedColon => "expected `:`"
  | .expectedListEnd => "expected `,` or `]`"
  | .expectedObjectEnd => "expected `,` or `\x7d`"
  | .trailingComma => "trailing comma"
  | .trailingCharacters => "trailing characters"
  | .tooDeep => "recursion limit exceeded"
  | .wrongType found wanted => "invalid type: " ++ found.message ++ ", expected " ++ wanted
  | .wrongValue found wanted => "invalid value: " ++ found.message ++ ", expected " ++ wanted
  | .repeatedMember name => "duplicate field `" ++ name ++ "`"
  | .rejected reason => reason

/-- A cause, the text that was left when it was noticed, and how many bytes of that text count as
read. -/
structure Stop where
  cause : Cause
  rest : List Char
  read : Nat
  deriving DecidableEq, Repr

/-- A cause noticed before any byte of the rest is read. -/
def Stop.before (cause : Cause) (rest : List Char) : Stop := ⟨cause, rest, 0⟩

/-- A cause noticed on the first byte of the rest. -/
def Stop.at (cause : Cause) (rest : List Char) : Stop := ⟨cause, rest, 1⟩

def Stop.ended (inside : Inside) : Stop := ⟨.ended inside, [], 0⟩

/-- A cause and its place: the line from one, and the number of bytes read on that line. -/
structure Fault where
  cause : Cause
  place : Text.Place
  deriving DecidableEq, Repr

/-- The place of a stop in the text that was being read. -/
def Stop.fault (text : List Char) (s : Stop) : Fault :=
  let size := Text.byteLength text
  ⟨s.cause, .ofBytes text (min size (size - Text.byteLength s.rest + s.read))⟩

def Fault.message (f : Fault) : String :=
  f.cause.message ++ " at line " ++ toString f.place.line ++ " column " ++ toString f.place.column

end GenExpr.Json
