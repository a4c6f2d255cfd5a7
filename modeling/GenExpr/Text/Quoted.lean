import GenExpr.Text.Unprintable

/-!
# Quoted text

How a message quotes a text that a user wrote: between double quotes, with a backslash before a
quote or a backslash, letters for the common controls, and the code point in hexadecimal for all else
that is not shown as itself. The single quote stands for itself.
-/

namespace GenExpr.Text

def quoteChar (c : Char) : List Char :=
  if c = '"' then ['\\', '"']
  else if c = '\\' then ['\\', '\\']
  else if c = '\n' then ['\\', 'n']
  else if c = '\r' then ['\\', 'r']
  else if c = '\t' then ['\\', 't']
  else if c = '\x00' then ['\\', '0']
  else if isUnprintable c then '\\' :: 'u' :: '\x7b' :: (Nat.toDigits 16 c.toNat ++ ['\x7d'])
  else [c]

def quoted (s : String) : String :=
  String.ofList ('"' :: (s.toList.flatMap quoteChar ++ ['"']))

end GenExpr.Text
