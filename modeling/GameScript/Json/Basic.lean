import GameScript.Decimal.Basic
import GameScript.Table

/-! JSON values. Numbers keep the distinction between integers and decimals, and an object is the
list of its members in order, so that a value can be written back as it was read. -/

namespace GameScript

/-- A JSON number: an integer of 64 bits, signed or unsigned, or a decimal. -/
inductive Number where
  | integer (n : Int)
  | decimal (d : Decimal)
deriving DecidableEq, Repr

namespace Number

instance : Inhabited Number := ⟨.integer 0⟩

/-- The integers of 64 bits, signed or unsigned. -/
def integerRange (n : Int) : Bool := -(Int.pow 2 63) ≤ n && n < Int.pow 2 64

/-- The text of a number: integers in decimal, everything else with a point or an exponent. -/
def text : Number → String
  | .integer n => toString n
  | .decimal d => d.text

/-- The number as a natural number, if it is a non-negative integer. -/
def natural? : Number → Option Nat
  | .integer n => if 0 ≤ n then some n.toNat else none
  | .decimal _ => none

/-- The number as a signed integer of 64 bits, if it is one. -/
def signed64? : Number → Option Int
  | .integer n => if -(Int.pow 2 63) ≤ n ∧ n < Int.pow 2 63 then some n else none
  | .decimal _ => none

end Number

inductive Json where
  | null
  | bool (b : Bool)
  | number (n : Number)
  | string (s : String)
  | array (items : List Json)
  | object (members : List (String × Json))
deriving Repr

namespace Json

instance : Inhabited Json := ⟨.null⟩

def items? : Json → Option (List Json)
  | .array items => some items
  | _ => none

def string? : Json → Option String
  | .string s => some s
  | _ => none

def number? : Json → Option Number
  | .number n => some n
  | _ => none

def member? (key : String) : Json → Option Json
  | .object members => Table.get? members key
  | _ => none

end Json
end GameScript
