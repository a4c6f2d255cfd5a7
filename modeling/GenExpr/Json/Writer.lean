import GenExpr.Decimal.Layout
import GenExpr.Value.Basic

/-!
# Writing JSON

The compact JSON text of a value. A string escapes its quotes, backslashes and controls and nothing
else; every float keeps a point or an exponent, and one that is not finite is written as null.
-/

namespace GenExpr.Json

def escape (c : Char) : List Char :=
  if c = '"' then ['\\', '"']
  else if c = '\\' then ['\\', '\\']
  else if c = '\x08' then ['\\', 'b']
  else if c = '\x0c' then ['\\', 'f']
  else if c = '\n' then ['\\', 'n']
  else if c = '\r' then ['\\', 'r']
  else if c = '\t' then ['\\', 't']
  else if c.toNat < 0x20 then
    ['\\', 'u', '0', '0', Nat.digitChar (c.toNat / 16), Nat.digitChar (c.toNat % 16)]
  else [c]

def writeString (s : String) : List Char := '"' :: (s.toList.flatMap escape ++ ['"'])

def writeFloat (x : Binary64) : List Char :=
  if x.isFinite then Decimal.Layout.json.write x else ['n', 'u', 'l', 'l']

mutual

def write : Value → List Char
  | .null => ['n', 'u', 'l', 'l']
  | .bool true => ['t', 'r', 'u', 'e']
  | .bool false => ['f', 'a', 'l', 's', 'e']
  | .int i => Decimal.ofInt i
  | .float x => writeFloat x
  | .str s => writeString s
  | .array items => '[' :: (writeItems items ++ [']'])
  | .map members => '\x7b' :: (writeMembers members ++ ['\x7d'])

def writeItems : List Value → List Char
  | [] => []
  | [v] => write v
  | v :: rest => write v ++ ',' :: writeItems rest

def writeMembers : List (String × Value) → List Char
  | [] => []
  | [(k, v)] => writeString k ++ ':' :: write v
  | (k, v) :: rest => writeString k ++ ':' :: (write v ++ ',' :: writeMembers rest)

end

end GenExpr.Json
