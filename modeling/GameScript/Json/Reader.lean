import GameScript.Json.Number

/-! Reading JSON text from left to right. A reader takes a value off the front of a text or reports
the first fault that it meets; values may be nested, up to a depth that every reader is given. -/

namespace GameScript
namespace Json

/-- A reader takes something off the front of a text. -/
abbrev Reader (α : Type) := StateT (List Char) (Except Fault) α

/-- The blanks between tokens. -/
def isBlank (c : Char) : Bool := c = ' ' || c = '\n' || c = '\t' || c = '\r'

namespace Reader

def fail {α : Type} (f : Fault) : Reader α := fun _ => .error f

/-- A reader that looks at the text behind the blanks and goes on from there. -/
def skipBlanks : Reader Unit := fun cs => .ok ((), cs.dropWhile isBlank)

/-- The next character behind the blanks, which is left in place. -/
def peek? : Reader (Option Char) := fun cs =>
  let rest := cs.dropWhile isBlank
  .ok (rest.head?, rest)

def drop : Reader Unit := fun cs => .ok ((), cs.tail)

/-- Reads the rest of a literal word whose first character has been seen and dropped. -/
def word (expected : List Char) : Reader Unit := fun cs =>
  match expected, cs with
  | [], cs => .ok ((), cs)
  | _ :: _, [] => .error .endOfValue
  | e :: es, c :: cs => if c = e then word es cs else .error .expectedIdent

/-- Four digits in base sixteen; they need four bytes of text. -/
def hexDigits (cs : List Char) : Except Fault (Nat × List Char) :=
  let value? (c : Char) : Option Nat :=
    if c.isDigit then some (c.toNat - '0'.toNat)
    else if 'a' ≤ c ∧ c ≤ 'f' then some (c.toNat - 'a'.toNat + 10)
    else if 'A' ≤ c ∧ c ≤ 'F' then some (c.toNat - 'A'.toNat + 10)
    else none
  let digits := (cs.take 4).filterMap value?
  if digits.length = 4 then .ok (digits.foldl (fun n d => n * 16 + d) 0, cs.drop 4)
  else if (cs.take 4).foldl (fun n c => n + c.utf8Size) 0 < 4 then .error .endOfString
  else .error .invalidEscape

/-- The character of an escape of two characters. -/
def simpleEscape? : Char → Option Char
  | '"' => some '"'
  | '\\' => some '\\'
  | '/' => some '/'
  | 'b' => some '\x08'
  | 'f' => some '\x0c'
  | 'n' => some '\n'
  | 'r' => some '\r'
  | 't' => some '\t'
  | _ => none

/-- Whether a code unit is the first, or the second, of a surrogate pair. -/
def isLeading (n : Nat) : Bool := 0xD800 ≤ n && n ≤ 0xDBFF

@[inherit_doc isLeading]
def isTrailing (n : Nat) : Bool := 0xDC00 ≤ n && n ≤ 0xDFFF

/-- The character of a numbered escape, from behind its `\u`; a character beyond 16 bits takes two
escapes. -/
def numberedEscape (cs : List Char) : Except Fault (Char × List Char) := do
  let (n, cs) ← hexDigits cs
  if isTrailing n then throw .loneSurrogate
  if ¬ isLeading n then return (Char.ofNat n, cs)
  match cs with
  | [] => throw .endOfString
  | '\\' :: [] => throw .endOfString
  | '\\' :: 'u' :: cs =>
      let (m, cs) ← hexDigits cs
      if isTrailing m then
        return (Char.ofNat ((n - 0xD800) * 0x400 + (m - 0xDC00) + 0x10000), cs)
      else throw .loneSurrogate
  | _ => throw .endOfHexEscape

/-- The rest of a string behind its opening quote. Every step takes a character, so `steps` need
not exceed the length of the text. -/
def stringRest : Nat → List Char → List Char → Except Fault (String × List Char)
  | _, _, [] => .error .endOfString
  | 0, _, _ => .error .endOfString
  | _ + 1, done, '"' :: cs => .ok (String.ofList done.reverse, cs)
  | _ + 1, _, ['\\'] => .error .endOfString
  | steps + 1, done, '\\' :: 'u' :: cs => do
      let (c, cs) ← numberedEscape cs
      stringRest steps (c :: done) cs
  | steps + 1, done, '\\' :: c :: cs =>
      match simpleEscape? c with
      | some c => stringRest steps (c :: done) cs
      | none => .error .invalidEscape
  | steps + 1, done, c :: cs =>
      if c.toNat < 32 then .error .controlCharacter else stringRest steps (c :: done) cs

def string : Reader String := fun cs => stringRest cs.length [] cs

/-- A number whose sign has been taken. -/
def number (negative : Bool) : Reader Number := readNumber negative

/-- What stands at the front of a text, by its first character. -/
inductive Start where
  | null
  | bool (b : Bool)
  | minus
  | digit
  | quote
  | bracket
  | brace
  | other
deriving DecidableEq, Repr

/-- The kind of value that a character starts. -/
def Start.of (c : Char) : Start :=
  if c = 'n' then .null
  else if c = 't' then .bool true
  else if c = 'f' then .bool false
  else if c = '-' then .minus
  else if c.isDigit then .digit
  else if c = '"' then .quote
  else if c = '[' then .bracket
  else if c = '\x7b' then .brace
  else .other

/-- What starts behind the blanks; there must be something. -/
def start : Reader Start := do
  match ← peek? with
  | none => fail .endOfValue
  | some c => return Start.of c

def nullRest : Reader Unit := do drop; word ['u', 'l', 'l']

def boolRest (b : Bool) : Reader Unit := do
  drop
  word (if b then ['r', 'u', 'e'] else ['a', 'l', 's', 'e'])

/-- Enters an array or an object: the depth left for what it holds. -/
def enter (depth : Nat) : Reader Nat := do
  if depth ≤ 1 then fail .tooDeep
  drop
  return depth - 1

/-- Whether a sequence has another item; the comma before it is taken. -/
def hasItem (first : Bool) : Reader Bool := do
  match ← peek? with
  | none => fail .endOfList
  | some c =>
      if c = ']' then return false
      else if first then return true
      else if c = ',' then
        drop
        match ← peek? with
        | none => fail .endOfValue
        | some c => if c = ']' then fail .trailingComma else return true
      else fail .expectedListCommaOrEnd

def endItems : Reader Unit := do
  match ← peek? with
  | none => fail .endOfList
  | some c =>
      if c = ']' then drop
      else if c = ',' then
        drop
        if (← peek?) = some ']' then fail .trailingComma else fail .trailingCharacters
      else fail .trailingCharacters

/-- The key of the next member of an object with the colon still to come, or none at its end; the
comma before it is taken. -/
def key? (first : Bool) : Reader (Option String) := do
  match ← peek? with
  | none => fail .endOfObject
  | some c =>
      if c = '\x7d' then return none
      else if first then
        if c = '"' then drop; some <$> string else fail .keyNotString
      else if c = ',' then
        drop
        match ← peek? with
        | none => fail .endOfValue
        | some c =>
            if c = '"' then drop; some <$> string
            else if c = '\x7d' then fail .trailingComma
            else fail .keyNotString
      else fail .expectedObjectCommaOrEnd

def colon : Reader Unit := do
  match ← peek? with
  | none => fail .endOfObject
  | some c => if c = ':' then drop else fail .expectedColon

mutual

/-- A value of any kind, nested up to `depth`; `steps` bounds the number of calls. -/
def valueWithin (depth : Nat) : Nat → Reader Json
  | 0 => fail .tooDeep
  | steps + 1 => do
      match ← start with
      | .null => nullRest; return .null
      | .bool b => boolRest b; return .bool b
      | .minus => drop; return .number (← number true)
      | .digit => return .number (← number false)
      | .quote => drop; return .string (← string)
      | .bracket => return .array (← itemsWithin (← enter depth) true steps)
      | .brace => return .object (Table.ofEntries (← membersWithin (← enter depth) true steps))
      | .other => fail .expectedValue

/-- The items of an array and its end. -/
def itemsWithin (depth : Nat) (first : Bool) : Nat → Reader (List Json)
  | 0 => fail .tooDeep
  | steps + 1 => do
      if ← hasItem first then
        let item ← valueWithin depth steps
        return item :: (← itemsWithin depth false steps)
      else
        endItems
        return []

/-- The members of an object, as often as they are written, and its end. -/
def membersWithin (depth : Nat) (first : Bool) : Nat → Reader (List (String × Json))
  | 0 => fail .tooDeep
  | steps + 1 => do
      match ← key? first with
      | none => drop; return []
      | some key =>
          colon
          let value ← valueWithin depth steps
          return (key, value) :: (← membersWithin depth false steps)

end

/-- The number of calls that reading a text can take: three for every character. -/
def stepsFor (cs : List Char) : Nat := 3 * cs.length + 3

def value (depth : Nat) : Reader Json := fun cs => valueWithin depth (stepsFor cs) cs

/-- The members of an object whose opening brace is next, as often as they are written. -/
def members (depth : Nat) : Reader (List (String × Json)) := do
  let depth ← enter depth
  fun cs => membersWithin depth true (stepsFor cs) cs

/-- Passes over the rest of a string without giving its characters; surrogates may stand alone. -/
def skipString : Nat → List Char → Except Fault (List Char)
  | _, [] => .error .endOfString
  | 0, _ => .error .endOfString
  | _ + 1, '"' :: cs => .ok cs
  | _ + 1, ['\\'] => .error .endOfString
  | steps + 1, '\\' :: 'u' :: cs => do
      let (_, cs) ← hexDigits cs
      skipString steps cs
  | steps + 1, '\\' :: c :: cs =>
      if (simpleEscape? c).isSome then skipString steps cs else .error .invalidEscape
  | steps + 1, c :: cs =>
      if c.toNat < 32 then .error .controlCharacter else skipString steps cs

/-- Passes over a string behind its opening quote. -/
def skipText : Reader Unit := fun cs => (skipString cs.length cs).map ((), ·)

/-- Passes over digits, of which there must be one. -/
def skipDigits : Reader Unit := fun cs =>
  match spanDigits cs with
  | ([], _) => .error .invalidNumber
  | (_, rest) => .ok ((), rest)

/-- Passes over an exponent, if there is one. -/
def skipExponent : Reader Unit := fun cs =>
  match cs with
  | 'e' :: '+' :: cs | 'E' :: '+' :: cs | 'e' :: '-' :: cs | 'E' :: '-' :: cs => skipDigits cs
  | 'e' :: cs | 'E' :: cs => skipDigits cs
  | cs => .ok ((), cs)

/-- Passes over decimals and an exponent, if there are any. -/
def skipDecimals : Reader Unit := fun cs =>
  match cs with
  | '.' :: cs => (do skipDigits; skipExponent : Reader Unit) cs
  | cs => skipExponent cs

/-- Passes over a number whose sign has been taken. Its size does not matter. -/
def skipNumber : Reader Unit := fun cs =>
  match cs with
  | '0' :: c :: cs =>
      if c.isDigit then .error .invalidNumber else skipDecimals (c :: cs)
  | cs => (do skipDigits; skipDecimals : Reader Unit) cs

mutual

/-- Passes over a value of any kind and any depth; `steps` bounds the number of calls. -/
def skipWithin : Nat → Reader Unit
  | 0 => fail .tooDeep
  | steps + 1 => do
      match ← start with
      | .null => nullRest
      | .bool b => boolRest b
      | .minus => drop; skipNumber
      | .digit => skipNumber
      | .quote => drop; skipText
      | .bracket =>
          drop
          match ← peek? with
          | none => fail .endOfList
          | some c => if c = ']' then drop else skipItems steps
      | .brace =>
          drop
          match ← peek? with
          | none => fail .endOfObject
          | some c => if c = '\x7d' then drop else skipMembers steps
      | .other => fail .expectedValue

/-- Passes over items, of which there is one, and the end of their array. -/
def skipItems : Nat → Reader Unit
  | 0 => fail .tooDeep
  | steps + 1 => do
      skipWithin steps
      match ← peek? with
      | none => fail .endOfList
      | some c =>
          if c = ',' then drop; skipItems steps
          else if c = ']' then drop
          else fail .expectedListCommaOrEnd

/-- Passes over members, of which there is one, and the end of their object. -/
def skipMembers : Nat → Reader Unit
  | 0 => fail .tooDeep
  | steps + 1 => do
      match ← peek? with
      | none => fail .endOfObject
      | some c =>
          if c = '"' then drop; skipText else fail .keyNotString
      colon
      skipWithin steps
      match ← peek? with
      | none => fail .endOfObject
      | some c =>
          if c = ',' then drop; skipMembers steps
          else if c = '\x7d' then drop
          else fail .expectedObjectCommaOrEnd

end

def skip : Reader Unit := fun cs => skipWithin (stepsFor cs) cs

/-- The depth of nesting that a text may reach: one less than this. -/
def depthLimit : Nat := 128

/-- Reads a whole text: nothing but blanks may follow what the reader takes. -/
def run {α : Type} (r : Nat → Reader α) (text : String) : Except Fault α :=
  match r depthLimit text.toList with
  | .error f => .error f
  | .ok (a, rest) => if rest.all isBlank then .ok a else .error .trailingCharacters

end Reader

def parse (text : String) : Except Fault Json := Reader.run Reader.value text

end Json
end GameScript
