/-! Finite decimal numbers in normal form, and their text. A number has exactly one normal form, so
equality of decimals is equality of their digits, their scale and their sign. -/

namespace GameScript

/-- The number `± significand · 10 ^ exponent`, with no trailing zero in the significand; the two
zeros differ in their sign only. -/
structure Decimal where
  negative : Bool
  significand : Nat
  exponent : Int
  normal : significand % 10 = 0 → significand = 0 ∧ exponent = 0
deriving DecidableEq, Repr

namespace Decimal

def zero (negative : Bool) : Decimal := ⟨negative, 0, 0, fun _ => ⟨rfl, rfl⟩⟩

instance : Inhabited Decimal := ⟨zero false⟩

/-- The normal form of `± significand · 10 ^ exponent`: trailing zeros move into the exponent. -/
def ofDigits (negative : Bool) (significand : Nat) (exponent : Int) : Decimal :=
  if hz : significand = 0 then zero negative
  else if ht : significand % 10 = 0 then ofDigits negative (significand / 10) (exponent + 1)
  else ⟨negative, significand, exponent, fun h => absurd h ht⟩
termination_by significand
decreasing_by omega

/-- The digits of a natural number in base ten, most significant first. -/
def digits (n : Nat) : List Char := Nat.toDigits 10 n

/-- An exponent always shows its sign: `e+16`, `e-6`. -/
def exponentText (e : Int) : List Char :=
  if e < 0 then 'e' :: '-' :: digits e.natAbs else 'e' :: '+' :: digits e.natAbs

/-- Digits with a point after the first one, or none when there is only one. -/
def pointed : List Char → List Char
  | [] => []
  | [d] => [d]
  | d :: ds => d :: '.' :: ds

/-- The least and the greatest power of ten of the leading digit that is written positionally. -/
def positionalRange : Int × Int := (-5, 15)

/-- The digits `ds` scaled by `10 ^ exponent`, written out; an integral number keeps `.0`. -/
def positional (ds : List Char) (exponent : Int) : List Char :=
  let whole := (ds.length : Int) + exponent
  if 0 ≤ exponent then ds ++ List.replicate exponent.toNat '0' ++ ['.', '0']
  else if 0 < whole then ds.take whole.toNat ++ '.' :: ds.drop whole.toNat
  else '0' :: '.' :: List.replicate (-whole).toNat '0' ++ ds

/-- The text of the magnitude: positional between `10 ^ -5` and `10 ^ 16`, with an exponent
elsewhere. -/
def magnitudeText (significand : Nat) (exponent : Int) : List Char :=
  let ds := digits significand
  let leading := (ds.length : Int) + exponent - 1
  if positionalRange.1 ≤ leading ∧ leading ≤ positionalRange.2 then positional ds exponent
  else pointed ds ++ exponentText leading

/-- The text of a decimal, which always has a point or an exponent. -/
def text (d : Decimal) : String :=
  String.ofList
    ((if d.negative then ['-'] else []) ++ magnitudeText d.significand d.exponent)

end Decimal
end GameScript
