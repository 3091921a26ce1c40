import GameScript.Json.Reader

/-! Reading values of a known kind: words, integers of a range, lists, and records, which are written
as an object of their fields or as an array of them in order. A value of another kind is described
in the fault, after its own faults. -/

namespace GameScript
namespace Json
namespace Reader

/-- Reports the value that starts here as one of the wrong kind. Words, numbers and strings are
read first, so that a fault inside them is the one that is reported. -/
def mismatch {α : Type} (expected : String) : Start → Reader α
  | .null => do nullRest; fail (.wrongType .null expected)
  | .bool b => do boolRest b; fail (.wrongType (.bool b) expected)
  | .minus => do drop; fail (.wrongType (.number (← number true)) expected)
  | .digit => do fail (.wrongType (.number (← number false)) expected)
  | .quote => do drop; fail (.wrongType (.string (← string)) expected)
  | .bracket => fail (.wrongType .sequence expected)
  | .brace => fail (.wrongType .map expected)
  | .other => fail .expectedValue

def textValue : Reader String := do
  match ← start with
  | .quote => drop; string
  | s => mismatch "a string" s

def boolValue : Reader Bool := do
  match ← start with
  | .bool b => boolRest b; return b
  | s => mismatch "a boolean" s

/-- A number of any kind. -/
def numberValue : Reader Number := do
  match ← start with
  | .minus => drop; number true
  | .digit => number false
  | s => mismatch "a JSON number" s

/-- A range of integers and its name. -/
structure IntegerKind where
  name : String
  least : Int
  greatest : Int

def signed64 : IntegerKind := ⟨"i64", -(Int.pow 2 63), Int.pow 2 63 - 1⟩

def index64 : IntegerKind := ⟨"usize", 0, Int.pow 2 64 - 1⟩

def byte : IntegerKind := ⟨"u8", 0, 255⟩

/-- A number as an integer of a range. Decimals are not integers, whatever their value. -/
def IntegerKind.check (k : IntegerKind) : Number → Except Fault Int
  | .integer n =>
      if k.least ≤ n ∧ n ≤ k.greatest then .ok n else .error (.wrongValue n k.name)
  | .decimal d => .error (.wrongType (.number (.decimal d)) k.name)

def integerValue (k : IntegerKind) : Reader Int := do
  match ← start with
  | .minus => drop; let n ← number true; liftM (k.check n)
  | .digit => let n ← number false; liftM (k.check n)
  | s => mismatch k.name s

/-- A value that may be null. -/
def optional {α : Type} (r : Reader α) : Reader (Option α) := do
  match ← start with
  | .null => nullRest; return none
  | _ => some <$> r

/-- The items of a sequence, each read the same way, and its end. -/
def itemsOf {α : Type} (item : Reader α) (first : Bool) : Nat → Reader (List α)
  | 0 => fail .tooDeep
  | steps + 1 => do
      if ← hasItem first then
        let a ← item
        return a :: (← itemsOf item false steps)
      else
        endItems
        return []

/-- A sequence of values that are all read the same way. -/
def listOf {α : Type} (item : Nat → Reader α) (depth : Nat) : Reader (List α) := do
  match ← start with
  | .bracket =>
      let depth ← enter depth
      fun cs => itemsOf (item depth) true (cs.length + 1) cs
  | s => mismatch "a sequence" s

/-- An object of any members; a repeated key keeps its first place and its last value. -/
def mapValue (depth : Nat) : Reader (Table String Json) := do
  match ← start with
  | .brace => return Table.ofEntries (← members depth)
  | s => mismatch "a map" s

end Reader

/-- A field of a record of type `σ`: its name, whether it must be present, and how its value is read
and put in its place. -/
structure Field (σ : Type) where
  name : String
  required : Bool
  read : Nat → Reader (σ → σ)

/-- A kind of record: its name, its fields in order, and the record in which all fields have their
defaults. -/
structure Record (σ : Type) where
  name : String
  fields : List (Field σ)
  initial : σ

namespace Record

open Reader

variable {σ : Type}

/-- What a diagnostic calls a record of this kind. -/
def title (r : Record σ) : String := s!"struct {r.name}"

/-- The fields of a record that is written as an object. A field is refused when it comes again,
before its value is looked at; other members are passed over; at the end the first required field
that did not come is missing. -/
def fromMembers (r : Record σ) (depth : Nat) (first : Bool) (seen : List String) (done : σ) :
    Nat → Reader σ
  | 0 => fail .tooDeep
  | steps + 1 => do
      match ← key? first with
      | none =>
          drop
          match r.fields.find? fun f => f.required && f.name ∉ seen with
          | some f => fail (.missingField f.name)
          | none => return done
      | some key =>
          match r.fields.find? fun f => f.name = key with
          | none => colon; skip; fromMembers r depth false seen done steps
          | some f =>
              if key ∈ seen then fail (.duplicateField key)
              else
                colon
                let update ← f.read depth
                fromMembers r depth false (key :: seen) (update done) steps

/-- The fields of a record that is written as an array, from the field at a position on. Fields with
a default may be missing at the end, and nothing may follow the last one. -/
def fromItems (r : Record σ) (depth position : Nat) (done : σ) : List (Field σ) → Reader σ
  | [] => do endItems; return done
  | f :: fs => do
      if ← hasItem (position = 0) then
        let update ← f.read depth
        fromItems r depth (position + 1) (update done) fs
      else
        match (f :: fs).findIdx? fun f => f.required with
        | some i =>
            fail (.wrongLength (position + i) s!"{r.title} with {r.fields.length} elements")
        | none => endItems; return done

def read (r : Record σ) (depth : Nat) : Reader σ := do
  match ← start with
  | .brace =>
      let depth ← enter depth
      fun cs => fromMembers r depth true [] r.initial (cs.length + 1) cs
  | .bracket => fromItems r (← enter depth) 0 r.initial r.fields
  | s => mismatch r.title s

end Record
end Json
end GameScript
