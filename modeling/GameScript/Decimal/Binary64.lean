/-! Magnitudes of the binary floating-point numbers of 64 bits, and the arithmetic that reading a
decimal literal needs. Every operation is the exact rational result rounded once, to nearest, a tie
going to the even mantissa. -/

namespace GameScript

/-- The magnitude `mantissa · 2 ^ exponent`, with a mantissa of at most 53 bits and an exponent of
at least `Binary64.leastExponent`. -/
structure Binary64 where
  mantissa : Nat
  exponent : Int
deriving DecidableEq, Repr

namespace Binary64

/-- The exponent of the subnormal numbers. -/
def leastExponent : Int := -1074

/-- The exponent of the greatest finite numbers. -/
def greatestExponent : Int := 971

/-- One more than the greatest mantissa. -/
def mantissaBound : Nat := Nat.pow 2 53

def zero : Binary64 := ⟨0, leastExponent⟩

/-- A quotient rounded to the nearest natural number, a tie going to the even one. -/
def roundQuotient (num den : Nat) : Nat :=
  let q := num / den
  let r := num % den
  if den < 2 * r ∨ (2 * r = den ∧ q % 2 = 1) then q + 1 else q

/-- The quotient `num / den / 2 ^ e` as one of natural numbers. -/
def scaled (num den : Nat) (e : Int) : Nat × Nat :=
  if 0 ≤ e then (num, den * Nat.pow 2 e.toNat) else (num * Nat.pow 2 (-e).toNat, den)

/-- The exponent at which the mantissa of `num / den` has 53 bits, or the least exponent where that
would be lower. -/
def exponentFor (num den : Nat) : Int :=
  let e : Int := (num.log2 : Int) - (den.log2 : Int) - 53
  let (n, d) := scaled num den e
  max leastExponent (if mantissaBound ≤ n / d then e + 1 else e)

/-- The number nearest to `num / den`; none when it lies beyond the finite ones. -/
def ofRatio (num den : Nat) : Option Binary64 :=
  if num = 0 then some zero
  else
    let e := exponentFor num den
    let (n, d) := scaled num den e
    let m := roundQuotient n d
    let rounded : Binary64 := if m = mantissaBound then ⟨m / 2, e + 1⟩ else ⟨m, e⟩
    if rounded.exponent ≤ greatestExponent then some rounded else none

def ofNat (n : Nat) : Option Binary64 := ofRatio n 1

def mul (a b : Binary64) : Option Binary64 :=
  let (n, d) := scaled (a.mantissa * b.mantissa) 1 (-(a.exponent + b.exponent))
  ofRatio n d

def div (a b : Binary64) : Option Binary64 :=
  let (n, d) := scaled a.mantissa b.mantissa (-(a.exponent - b.exponent))
  ofRatio n d

/-- The greatest power of ten that is a finite number. -/
def greatestPower : Nat := 308

def powerOfTen (k : Nat) : Option Binary64 := ofNat (Nat.pow 10 k)

/-- The quotient `x / 10 ^ k`, divided by the greatest power of ten as often as it takes and rounded after every
division. -/
def divPower (x : Binary64) (k : Nat) : Option Binary64 :=
  if k ≤ greatestPower then (powerOfTen k).bind x.div
  else if x.mantissa = 0 then some x
  else ((powerOfTen greatestPower).bind x.div).bind (divPower · (k - greatestPower))
termination_by k
decreasing_by
  simp only [greatestPower] at *
  omega

/-- The value given to `significand · 10 ^ exponent`: the significand is rounded first, the scaling
by a power of ten after it. None when the value lies beyond the finite numbers. -/
def ofDecimal (significand : Nat) (exponent : Int) : Option Binary64 :=
  (ofNat significand).bind fun x =>
    if exponent < 0 then x.divPower exponent.natAbs
    else if exponent.natAbs ≤ greatestPower then (powerOfTen exponent.natAbs).bind x.mul
    else if x.mantissa = 0 then some x
    else none

end Binary64
end GameScript
