import GameScript.Decimal.Basic
import GameScript.Decimal.Binary64

/-! The shortest decimal that reads back as a given binary number. Of the decimals with the fewest
digits among those that round to the number it is the nearest, and of two equally near ones the one
with an even last digit. -/

namespace GameScript
namespace Binary64

/-- The reals that round to a number, in quarters of the unit of its last place: `lower` and `upper`
are the ends, which belong to the interval when the mantissa is even. -/
structure Interval where
  lower : Nat
  centre : Nat
  upper : Nat
  closed : Bool
deriving Repr

/-- The interval of a nonzero number; below a power of two the spacing halves. -/
def interval (x : Binary64) : Interval :=
  let narrow := x.mantissa = mantissaBound / 2 ∧ leastExponent < x.exponent
  ⟨4 * x.mantissa - (if narrow then 1 else 2), 4 * x.mantissa, 4 * x.mantissa + 2,
    x.mantissa % 2 = 0⟩

/-- Whether a point, in the units of the interval's ends times `unit`, rounds to the number. -/
def Interval.holds (i : Interval) (unit point : Nat) : Bool :=
  let low := i.lower * unit
  let high := i.upper * unit
  if i.closed then low ≤ point && point ≤ high else low < point && point < high

/-- The best multiple of `10 ^ grid` among the two around the number, if one of them rounds to it. -/
def onGrid? (x : Binary64) (grid : Int) : Option Nat :=
  let i := x.interval
  let step := Nat.pow 10 grid.toNat * Nat.pow 2 (2 - x.exponent).toNat
  let unit := Nat.pow 10 (-grid).toNat * Nat.pow 2 (x.exponent - 2).toNat
  let centre := i.centre * unit
  let below := centre / step
  let above := below + 1
  let left := centre - below * step
  let right := above * step - centre
  match i.holds unit (below * step), i.holds unit (above * step) with
  | true, true =>
      if left < right then some below
      else if right < left then some above
      else if below % 2 = 0 then some below else some above
  | true, false => some below
  | false, true => some above
  | false, false => none

/-- A power of ten not above the number and not more than ten times below it, or one lower. -/
def leadingPower (x : Binary64) : Int :=
  let (num, den) := scaled x.mantissa 1 (-x.exponent)
  if den ≤ num then ((Decimal.digits (num / den)).length : Int) - 1
  else -((Decimal.digits (den / num)).length : Int)

/-- The first of the grids `10 ^ grid`, `10 ^ (grid - 1)`, … on which a decimal reads back. -/
def firstGrid (x : Binary64) (negative : Bool) : Nat → Int → Decimal
  | 0, _ => Decimal.zero negative
  | steps + 1, grid =>
      match x.onGrid? grid with
      | some digits => Decimal.ofDigits negative digits grid
      | none => firstGrid x negative steps (grid - 1)

/-- The shortest decimal that reads back as the number; no number needs more than 17 digits. -/
def shortest (x : Binary64) (negative : Bool) : Decimal :=
  if x.mantissa = 0 then Decimal.zero negative
  else x.firstGrid negative 18 x.leadingPower

end Binary64
end GameScript
