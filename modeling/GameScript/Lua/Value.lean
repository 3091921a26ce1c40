import GameScript.Json.Basic
import GameScript.Lua.Token

/-! JSON values as constructors of the output language: arrays and objects become tables, and null
becomes nil. -/

namespace GameScript
namespace Lua

/-- A key of a table constructor. -/
def keyText (key : String) : String := if isIdentifier key then key else "[" ++ quote key ++ "]"

mutual

/-- The constructor of a value. -/
def value : Json → String
  | .null => "nil"
  | .bool true => "true"
  | .bool false => "false"
  | .number n => n.text
  | .string s => quote s
  | .array items => "\x7b" ++ ", ".intercalate (values items) ++ "\x7d"
  | .object members => "\x7b" ++ ", ".intercalate (fields members) ++ "\x7d"

def values : List Json → List String
  | [] => []
  | item :: items => value item :: values items

def fields : List (String × Json) → List String
  | [] => []
  | (key, item) :: members => (keyText key ++ " = " ++ value item) :: fields members

end

end Lua
end GameScript
