/-! Names, string literals and comments of the output language. A name that is no identifier is
reached through an index into a table, and every text that a document brings is quoted. -/

namespace GameScript
namespace Lua

/-- Prefix that the compiler keeps for its own names. -/
def reservedPrefix : List Char := ['_', '_']

/-- The keywords, and the two names that every handler binds or every unit calls. -/
def reservedWords : List String :=
  ["and", "break", "do", "else", "elseif", "end", "false", "for", "function", "goto", "if", "in",
   "local", "nil", "not", "or", "repeat", "return", "then", "true", "until", "while", "event",
   "import"]

/-- Whether a bare comparison operand is taken for a name: it is not empty, does not start with a
digit, and holds neither a space nor a hyphen. -/
def isToken (s : String) : Bool :=
  match s.toList with
  | [] => false
  | c :: cs => !c.isDigit && !(c :: cs).contains ' ' && !(c :: cs).contains '-'

def isIdentifierChar (c : Char) : Bool := c.isAlphanum || c == '_'

/-- Whether a name may be written as it is. -/
def isIdentifier (s : String) : Bool :=
  isToken s && s.toList.all isIdentifierChar && !reservedWords.contains s

/-- The written form of one character of a string literal. -/
def escapeChar (c : Char) : List Char :=
  if c = '\\' then ['\\', '\\']
  else if c = '\n' then ['\\', 'n']
  else if c = '\x0c' then ['\\', 'f']
  else if c = '"' then ['\\', '"']
  else [c]

def escape (s : String) : String := String.ofList (s.toList.flatMap escapeChar)

def quote (s : String) : String := "\"" ++ escape s ++ "\""

/-- Doubles the reserved prefix, so that names of a program never meet names of the compiler. -/
def escapeReserved (name : String) : String :=
  if reservedPrefix.isPrefixOf name.toList then String.ofList (reservedPrefix ++ name.toList)
  else name

/-- Puts a space into every pair of closing brackets, from the left. -/
def splitClosers : List Char → List Char
  | ']' :: ']' :: cs => ']' :: ' ' :: ']' :: splitClosers cs
  | c :: cs => c :: splitClosers cs
  | [] => []

/-- A text on one line. -/
def oneLine (s : String) : String := s.map fun c => if c = '\n' then ' ' else c

/-- A comment that says something about what follows it. -/
def inlineComment (s : String) : String :=
  "--[[(" ++ oneLine (String.ofList (splitClosers s.toList)) ++ ")]]"

/-- A field of an object, by dot where the key is an identifier and by index elsewhere. -/
def field (object key : String) : String :=
  if isIdentifier key then object ++ "." ++ key else object ++ "[" ++ quote key ++ "]"

def join (texts : List String) : String := texts.foldr (· ++ ·) ""

end Lua
end GameScript
