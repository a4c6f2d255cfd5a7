import GenExpr.Entries
import GenExpr.Json.Fault
import GenExpr.Json.Number
import GenExpr.Value.Basic

/-!
# Reading JSON

The reader takes a value off the front of a text. It refuses a value that nests too many brackets, and
of a repeated key in an object the last member counts. Readers of lists and objects are written once,
for any reader of what is inside, so that documents of a fixed shape are read by the same rules.
-/

namespace GenExpr.Json

/-- A reader takes something off the front of a text, or stops. -/
abbrev Reader (α : Type) := List Char → Except Stop (α × List Char)

def isBlank (c : Char) : Bool := c = ' ' || c = '\t' || c = '\n' || c = '\r'

/-- The text from the first character that is not blank. -/
def skipBlank (cs : List Char) : List Char := cs.dropWhile isBlank

def word : List Char → List Char → Except Stop (List Char)
  | [], cs => .ok cs
  | _ :: _, [] => .error (.ended .value)
  | w :: ws, c :: cs => if w = c then word ws cs else .error (.at .expectedWord (c :: cs))

def hexDigit? (c : Char) : Option Nat :=
  if '0' ≤ c ∧ c ≤ '9' then some (c.toNat - '0'.toNat)
  else if 'a' ≤ c ∧ c ≤ 'f' then some (c.toNat - 'a'.toNat + 10)
  else if 'A' ≤ c ∧ c ≤ 'F' then some (c.toNat - 'A'.toNat + 10)
  else none

/-- The number written by four hexadecimal digits. -/
def hexQuad? : List Char → Option Nat
  | [a, b, c, d] =>
    match hexDigit? a, hexDigit? b, hexDigit? c, hexDigit? d with
    | some a, some b, some c, some d => some (((a * 16 + b) * 16 + c) * 16 + d)
    | _, _, _, _ => none
  | _ => none

/-- Reads four hexadecimal digits. Four bytes are taken whatever they hold. -/
def hexQuad : Reader Nat := fun cs =>
  if Text.byteLength (cs.take 4) < 4 then .error (.ended .string)
  else
    match hexQuad? (cs.take 4) with
    | some n => .ok (n, cs.drop 4)
    | none => .error ⟨.invalidEscape, cs, 4⟩

/-- Reads what follows `\u`: one escape, or two for a character beyond the basic plane. -/
def codePoint : Reader Char := fun cs =>
  match hexQuad cs with
  | .error e => .error e
  | .ok (n, r) =>
    if 0xdc00 ≤ n ∧ n ≤ 0xdfff then .error (.before .loneSurrogate r)
    else if n < 0xd800 ∨ 0xdbff < n then .ok (Char.ofNat n, r)
    else
      match r with
      | '\\' :: 'u' :: r =>
        match hexQuad r with
        | .error e => .error e
        | .ok (m, r) =>
          if 0xdc00 ≤ m ∧ m ≤ 0xdfff then
            .ok (Char.ofNat ((n - 0xd800) * 0x400 + (m - 0xdc00) + 0x10000), r)
          else .error (.before .loneSurrogate r)
      | '\\' :: [] => .error (.ended .string)
      | '\\' :: r => .error (.at .unpairedEscape r)
      | [] => .error (.ended .string)
      | r => .error (.at .unpairedEscape r)

def escaped : Reader Char := fun cs =>
  match cs with
  | [] => .error (.ended .string)
  | c :: r =>
    if c = '"' ∨ c = '\\' ∨ c = '/' then .ok (c, r)
    else if c = 'b' then .ok ('\x08', r)
    else if c = 'f' then .ok ('\x0c', r)
    else if c = 'n' then .ok ('\n', r)
    else if c = 'r' then .ok ('\r', r)
    else if c = 't' then .ok ('\t', r)
    else if c = 'u' then codePoint r
    else .error (.at .invalidEscape cs)

/-- Reads the rest of a string and its closing quote. -/
def characters : Nat → Reader (List Char)
  | 0, _ => .error (.ended .string)
  | _ + 1, [] => .error (.ended .string)
  | n + 1, c :: r =>
    if c = '"' then .ok ([], r)
    else if c = '\\' then
      match escaped r with
      | .error e => .error e
      | .ok (d, r) =>
        match characters n r with
        | .error e => .error e
        | .ok (more, r) => .ok (d :: more, r)
    else if c.toNat < 0x20 then .error (.at .controlCharacter (c :: r))
    else
      match characters n r with
      | .error e => .error e
      | .ok (more, r) => .ok (c :: more, r)

/-- Reads a string whose opening quote has been read. -/
def stringRest : Reader String := fun cs =>
  match characters (cs.length + 1) cs with
  | .error e => .error e
  | .ok (chars, r) => .ok (String.ofList chars, r)

/-- Reads the items of a list and its closing bracket. -/
def items {α : Type} (item : Reader α) : Nat → Bool → Reader (List α)
  | 0, _, _ => .error (.ended .list)
  | n + 1, first, cs =>
    let next (r : List Char) : Except Stop (List α × List Char) :=
      match item r with
      | .error e => .error e
      | .ok (a, r) =>
        match items item n false r with
        | .error e => .error e
        | .ok (more, r) => .ok (a :: more, r)
    match skipBlank cs with
    | [] => .error (.ended .list)
    | c :: r =>
      if c = ']' then .ok ([], r)
      else if first then next (c :: r)
      else if c = ',' then
        match skipBlank r with
        | [] => .error (.ended .value)
        | d :: r => if d = ']' then .error (.at .trailingComma (d :: r)) else next (d :: r)
      else .error (.at .expectedListEnd (c :: r))

/-- Reads the members of an object and its closing bracket. Each member is read into what was read
before, by a reader that is given the key and begins at the colon. -/
def members {σ : Type} (member : σ → String → Reader σ) : Nat → Bool → σ → Reader σ
  | 0, _, _, _ => .error (.ended .object)
  | n + 1, first, s, cs =>
    let next (r : List Char) : Except Stop (σ × List Char) :=
      match r with
      | '"' :: r =>
        match stringRest r with
        | .error e => .error e
        | .ok (key, r) =>
          match member s key r with
          | .error e => .error e
          | .ok (s, r) => members member n false s r
      | r => .error (.at .keyNotString r)
    match skipBlank cs with
    | [] => .error (.ended .object)
    | c :: r =>
      if c = '\x7d' then .ok (s, r)
      else if first then next (c :: r)
      else if c = ',' then
        match skipBlank r with
        | [] => .error (.ended .value)
        | d :: r => if d = '\x7d' then .error (.at .trailingComma (d :: r)) else next (d :: r)
      else .error (.at .expectedObjectEnd (c :: r))

def colon (cs : List Char) : Except Stop (List Char) :=
  match skipBlank cs with
  | [] => .error (.ended .object)
  | ':' :: r => .ok r
  | r => .error (.at .expectedColon r)

/-- Reads a member of an object into the entries before it. -/
def entry (value : Reader Value) (entries : List (String × Value)) (key : String) :
    Reader (List (String × Value)) := fun cs =>
  match colon cs with
  | .error e => .error e
  | .ok r =>
    match value r with
    | .error e => .error e
    | .ok (v, r) => .ok (Entries.insert key v entries, r)

/-- A whole number of 64 bits is an integer, any other number a float. -/
def Number.value : Number → Value
  | .natural n => if n < 1 <<< 63 then .int n else .float (.ofInt n)
  | .negative n => .int (-(n : Int))
  | .float x => .float x

/-- Reads a number that begins with a minus sign or a digit, as a value. -/
def numberValue : Reader Value := fun cs =>
  match number cs with
  | .error e => .error e
  | .ok (n, r) => .ok (n.value, r)

def wordValue (rest : List Char) (v : Value) : Reader Value := fun cs =>
  match word rest cs with
  | .error e => .error e
  | .ok r => .ok (v, r)

/-- Reads a list or an object, by a reader of the values inside it. -/
def bracketed (inner : Reader Value) (c : Char) : Reader Value := fun r =>
  if c = '[' then
    match items inner (r.length + 1) true r with
    | .error e => .error e
    | .ok (vs, r) => .ok (.array vs, r)
  else
    match members (entry inner) (r.length + 1) true [] r with
    | .error e => .error e
    | .ok (entries, r) => .ok (.map entries, r)

/-- Reads a value, by what to do at an opening bracket. -/
def valueWith (bracket : Char → Reader Value) : Reader Value := fun cs =>
  match skipBlank cs with
  | [] => .error (.ended .value)
  | c :: r =>
    if c = 'n' then wordValue ['u', 'l', 'l'] .null r
    else if c = 't' then wordValue ['r', 'u', 'e'] (.bool true) r
    else if c = 'f' then wordValue ['a', 'l', 's', 'e'] (.bool false) r
    else if c = '-' ∨ c.isDigit then numberValue (c :: r)
    else if c = '"' then
      match stringRest r with
      | .error e => .error e
      | .ok (s, r) => .ok (.str s, r)
    else if c = '[' ∨ c = '\x7b' then bracket c r
    else .error (.at .expectedValue (c :: r))

/-- Reads a value that may open a number of brackets inside each other. -/
def value : Nat → Reader Value
  | 0 => valueWith fun c r => .error (.at .tooDeep (c :: r))
  | depth + 1 => valueWith (bracketed (value depth))

/-- How many brackets may be open inside each other. -/
def maxDepth : Nat := 127

def finish (cs : List Char) : Except Stop Unit :=
  match skipBlank cs with
  | [] => .ok ()
  | r => .error (.at .trailingCharacters r)

def readAll {α : Type} (reader : Reader α) (text : String) : Except Fault α :=
  match reader text.toList with
  | .error e => .error (e.fault text.toList)
  | .ok (a, r) =>
    match finish r with
    | .error e => .error (e.fault text.toList)
    | .ok () => .ok a

def read (text : String) : Except Fault Value := readAll (value maxDepth) text

end GenExpr.Json
