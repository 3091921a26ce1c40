import GameScript.Json.Basic

/-! The compact text of a JSON value: no space between tokens, members in order, and only quotes,
backslashes and control characters escaped. -/

namespace GameScript
namespace Json

/-- A digit in base sixteen, lower case. -/
def hexDigit (n : Nat) : Char := (Nat.digitChar n)

/-- The written form of one character of a string: control characters have a short escape or a
numbered one, everything from the space on stands for itself. -/
def escapeChar (c : Char) : List Char :=
  if c = '"' then ['\\', '"']
  else if c = '\\' then ['\\', '\\']
  else if c = '\x08' then ['\\', 'b']
  else if c = '\x0c' then ['\\', 'f']
  else if c = '\n' then ['\\', 'n']
  else if c = '\r' then ['\\', 'r']
  else if c = '\t' then ['\\', 't']
  else if c.toNat < 32 then ['\\', 'u', '0', '0', hexDigit (c.toNat / 16), hexDigit (c.toNat % 16)]
  else [c]

/-- A string between quotes, with its characters escaped. -/
def quoted (s : String) : List Char := '"' :: s.toList.flatMap escapeChar ++ ['"']

mutual

def chars : Json → List Char
  | .null => ['n', 'u', 'l', 'l']
  | .bool true => ['t', 'r', 'u', 'e']
  | .bool false => ['f', 'a', 'l', 's', 'e']
  | .number n => n.text.toList
  | .string s => quoted s
  | .array items => '[' :: itemsChars items ++ [']']
  | .object members => '\x7b' :: membersChars members ++ ['\x7d']

/-- Items with a comma between each two. -/
def itemsChars : List Json → List Char
  | [] => []
  | [item] => item.chars
  | item :: items => item.chars ++ ',' :: itemsChars items

/-- Members with a comma between each two. -/
def membersChars : List (String × Json) → List Char
  | [] => []
  | [(key, value)] => quoted key ++ ':' :: value.chars
  | (key, value) :: members => quoted key ++ ':' :: value.chars ++ ',' :: membersChars members

end

def text (v : Json) : String := String.ofList v.chars

end Json
end GameScript
