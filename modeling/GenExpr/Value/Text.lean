import GenExpr.Json.Writer
import GenExpr.Text.Quoted

/-!
# Texts of a value

The text of a value is what concatenating generators put together: strings as they are, arrays joined
by commas, maps as JSON. The debug text shows how the value is built.
-/

namespace GenExpr.Value

mutual

def text : Value → String
  | null => "null"
  | bool b => if b then "true" else "false"
  | int i => String.ofList (Decimal.ofInt i)
  | float x => String.ofList (Decimal.text x)
  | str s => s
  | array items => textItems items
  | map members => String.ofList (Json.write (map members))

def textItems : List Value → String
  | [] => ""
  | [v] => text v
  | v :: rest => text v ++ "," ++ textItems rest

end

def json (v : Value) : String := String.ofList (Json.write v)

mutual

def debug : Value → String
  | null => "Null"
  | bool b => "Bool(" ++ (if b then "true" else "false") ++ ")"
  | int i => "Int(" ++ String.ofList (Decimal.ofInt i) ++ ")"
  | float x => "Float(" ++ String.ofList (Decimal.Layout.debug.write x) ++ ")"
  | str s => "Str(" ++ Text.quoted s ++ ")"
  | array items => "Array([" ++ debugItems items ++ "])"
  | map members => "Map(\x7b" ++ debugMembers members ++ "\x7d)"

def debugItems : List Value → String
  | [] => ""
  | [v] => debug v
  | v :: rest => debug v ++ ", " ++ debugItems rest

def debugMembers : List (String × Value) → String
  | [] => ""
  | [(k, v)] => Text.quoted k ++ ": " ++ debug v
  | (k, v) :: rest => Text.quoted k ++ ": " ++ debug v ++ ", " ++ debugMembers rest

end

end GenExpr.Value
