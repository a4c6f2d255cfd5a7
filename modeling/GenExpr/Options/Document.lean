import GenExpr.Json.Reader
import GenExpr.Options.Basic

/-!
# Options documents

Options as a JSON object. The members `iterations` and `letters` may occur once each and have types of
their own; every other member is a custom option, and the last member of a key counts. A wrong type is
noticed where the value ends, or before a bracket. A repeated member or unusable letters are blamed on
the object: their place is where the object would have gone on, after its closing bracket if that is
what follows.
-/

namespace GenExpr

open Json

namespace Options.Document

/-- The options read so far, and which of the named members were among them. -/
structure Draft where
  options : Options
  iterationsGiven : Bool
  lettersGiven : Bool

def foundNumber : Number → Found
  | .natural n => .integer n
  | .negative n => .integer (-(n : Int))
  | .float x => .float x

/-- Reads the value at the front of a text, which is not of the wanted type. -/
def wrongType {α : Type} (wanted : String) (cs : List Char) : Except Stop α :=
  let found (f : Found) (r : List Char) : Except Stop α := .error (.before (.wrongType f wanted) r)
  let afterWord (w : List Char) (f : Found) (r : List Char) : Except Stop α :=
    match word w r with
    | .error e => .error e
    | .ok r => found f r
  match cs with
  | [] => .error (.ended .value)
  | c :: r =>
    if c = 'n' then afterWord ['u', 'l', 'l'] .null r
    else if c = 't' then afterWord ['r', 'u', 'e'] (.boolean true) r
    else if c = 'f' then afterWord ['a', 'l', 's', 'e'] (.boolean false) r
    else if c = '-' ∨ c.isDigit then
      match number cs with
      | .error e => .error e
      | .ok (n, r) => found (foundNumber n) r
    else if c = '"' then
      match stringRest r with
      | .error e => .error e
      | .ok (s, r) => found (.string s) r
    else if c = '[' then found .sequence cs
    else if c = '\x7b' then found .map cs
    else .error (.at .expectedValue cs)

/-- How a natural number is called where something else is found. -/
def naturalName : String := "usize"

def natural : Reader Nat := fun cs =>
  match skipBlank cs with
  | [] => .error (.ended .value)
  | c :: r =>
    if c = '-' ∨ c.isDigit then
      match number (c :: r) with
      | .error e => .error e
      | .ok (.natural n, r) => .ok (n, r)
      | .ok (.negative n, r) =>
        .error (.before (.wrongValue (.integer (-(n : Int))) naturalName) r)
      | .ok (.float x, r) => .error (.before (.wrongType (.float x) naturalName) r)
    else wrongType naturalName (c :: r)

def string : Reader String := fun cs =>
  match skipBlank cs with
  | '"' :: r => stringRest r
  | r => wrongType "a string" r

/-- A fault of the object as a whole: its place is after the blanks and the closing bracket that
follow. -/
def objectFault (cause : Cause) (cs : List Char) : Stop :=
  match skipBlank cs with
  | '\x7d' :: r => .before cause r
  | r => .before cause r

/-- Reads a member by a reader, after its colon. -/
def member {α : Type} (reader : Reader α) (cs : List Char) : Except Stop (α × List Char) :=
  match colon cs with
  | .error e => .error e
  | .ok r => reader r

/-- Reads a member of the document into the draft before it. -/
def addMember (d : Draft) (key : String) : Reader Draft := fun cs =>
  if key = "iterations" then
    if d.iterationsGiven then .error (objectFault (.repeatedMember key) cs)
    else
      match member natural cs with
      | .error e => .error e
      | .ok (n, r) =>
        .ok ({ d with options := { d.options with iterations := n }, iterationsGiven := true }, r)
  else if key = "letters" then
    if d.lettersGiven then .error (objectFault (.repeatedMember key) cs)
    else
      match member string cs with
      | .error e => .error e
      | .ok (s, r) =>
        match Letters.parse s with
        | .error e => .error (objectFault (.rejected e.message) r)
        | .ok l =>
          .ok ({ d with options := { d.options with letters := l }, lettersGiven := true }, r)
  else
    match member (value (maxDepth - 1)) cs with
    | .error e => .error e
    | .ok (v, r) => .ok ({ d with options := d.options.set key v }, r)

def read : Reader Options := fun cs =>
  match skipBlank cs with
  | '\x7b' :: r =>
    match members addMember (r.length + 1) true ⟨standard, false, false⟩ r with
    | .error e => .error e
    | .ok (d, r) => .ok (d.options, r)
  | r => wrongType "struct Options" r

end Options.Document

def Options.ofJson (text : String) : Except Error Options :=
  match readAll Options.Document.read text with
  | .error fault => .error (.json fault)
  | .ok o => .ok o

end GenExpr
