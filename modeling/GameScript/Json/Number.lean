import GameScript.Json.Fault
import GameScript.Decimal.Shortest

/-! Reading a number literal. The digits are gathered into a significand of 64 bits; integer digits
that no longer fit count as powers of ten, decimal digits that no longer fit are dropped. A literal
with a point or an exponent, or an integer that 64 bits cannot hold, is given the nearest binary
value that these parts lead to, and is kept as the shortest decimal of that value. -/

namespace GameScript
namespace Json

def greatestSignificand : Nat := Nat.pow 2 64 - 1

/-- The greatest exponent that is kept exactly. -/
def greatestExponent : Nat := Nat.pow 2 31 - 1

def digitValue (c : Char) : Nat := c.toNat - '0'.toNat

/-- Appends digits to a significand while it stays below the bound: the significand, the number of
digits taken, and the rest of the text. -/
def appendDigits (significand : Nat) : List Char → Nat × Nat × List Char
  | [] => (significand, 0, [])
  | c :: cs =>
      if c.isDigit ∧ significand * 10 + digitValue c ≤ greatestSignificand then
        let (s, taken, rest) := appendDigits (significand * 10 + digitValue c) cs
        (s, taken + 1, rest)
      else (significand, 0, c :: cs)

/-- The leading digits of a text and what follows them. -/
def spanDigits (cs : List Char) : List Char × List Char := cs.span Char.isDigit

def valueOfDigits (ds : List Char) : Nat := ds.foldl (fun n d => n * 10 + digitValue d) 0

/-- The number with the given parts, as the shortest decimal of its binary value. -/
def decimalOfParts (negative : Bool) (significand : Nat) (exponent : Int) :
    Except Fault Number :=
  match Binary64.ofDecimal significand exponent with
  | some x => .ok (.decimal (x.shortest negative))
  | none => .error .numberOutOfRange

/-- Reads the exponent behind `e`. An exponent beyond the bound gives zero, or a number out of
range. -/
def readExponent (negative : Bool) (significand : Nat) (start : Int) (cs : List Char) :
    Except Fault (Number × List Char) :=
  let (below, unsigned) : Bool × List Char := match cs with
    | '+' :: cs => (false, cs)
    | '-' :: cs => (true, cs)
    | cs => (false, cs)
  match spanDigits unsigned with
  | ([], []) => .error .endOfValue
  | ([], _ :: _) => .error .invalidNumber
  | (ds, rest) =>
      let size := valueOfDigits ds
      if greatestExponent < size then
        if significand ≠ 0 ∧ ¬ below then .error .numberOutOfRange
        else .ok (.decimal (Decimal.zero negative), rest)
      else
        (decimalOfParts negative significand (if below then start - size else start + size)).map
          (·, rest)

/-- Reads the decimals behind the point and an exponent behind them. -/
def readDecimals (negative : Bool) (significand : Nat) (start : Int) (cs : List Char) :
    Except Fault (Number × List Char) :=
  match spanDigits cs with
  | ([], []) => .error .endOfValue
  | ([], _ :: _) => .error .invalidNumber
  | (_, rest) =>
      let (s, taken, _) := appendDigits significand cs
      match rest with
      | 'e' :: rest | 'E' :: rest => readExponent negative s (start - taken) rest
      | rest => (decimalOfParts negative s (start - taken)).map (·, rest)

/-- The number of an integer literal. Minus zero and integers that 64 bits cannot hold are
decimals. -/
def integerNumber (negative : Bool) (n : Nat) : Except Fault Number :=
  if ¬ negative then .ok (.integer n)
  else if n = 0 ∨ Nat.pow 2 63 < n then decimalOfParts true n 0
  else .ok (.integer (-n))

/-- Reads a number literal whose sign has been taken. -/
def readNumber (negative : Bool) : List Char → Except Fault (Number × List Char)
  | [] => .error .endOfValue
  | '0' :: rest =>
      match rest with
      | '.' :: rest => readDecimals negative 0 0 rest
      | 'e' :: rest | 'E' :: rest => readExponent negative 0 0 rest
      | c :: rest =>
          if c.isDigit then .error .invalidNumber
          else (integerNumber negative 0).map (·, c :: rest)
      | [] => (integerNumber negative 0).map (·, [])
  | c :: cs =>
      if ¬ c.isDigit then .error .invalidNumber
      else
        let (s, _, left) := appendDigits 0 (c :: cs)
        let (extra, rest) := spanDigits left
        match rest with
        | '.' :: rest => readDecimals negative s extra.length rest
        | 'e' :: rest | 'E' :: rest => readExponent negative s extra.length rest
        | rest =>
            if extra.isEmpty then (integerNumber negative s).map (·, rest)
            else (decimalOfParts negative s extra.length).map (·, rest)

end Json
end GameScript
