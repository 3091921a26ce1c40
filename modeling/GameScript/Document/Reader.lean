import GameScript.Document.Basic
import GameScript.Json.Record

/-! Reading a game document from its text, record by record. Fields that a document may leave out
have a default; everything else must be there and be of its kind. -/

namespace GameScript

open Json Json.Reader

/-- A required field. -/
def Json.Field.must {σ α : Type} (name : String) (read : Nat → Reader α) (put : α → σ → σ) :
    Field σ := ⟨name, true, fun depth => put <$> read depth⟩

/-- A field with a default. -/
def Json.Field.may {σ α : Type} (name : String) (read : Nat → Reader α) (put : α → σ → σ) :
    Field σ := ⟨name, false, fun depth => put <$> read depth⟩

namespace Frame

/-- A byte, if the value is one. -/
def byte? : Json → Option UInt8
  | .number (.integer n) => if 0 ≤ n ∧ n ≤ 255 then some (UInt8.ofNat n.toNat) else none
  | _ => none

/-- The pixels of an object whose member `data` is written once and is an array of bytes. -/
def pixels? (members : List (String × Json)) : Option (List UInt8) :=
  match members.filter fun m => m.1 = "data" with
  | [(_, .array items)] => items.mapM byte?
  | _ => none

/-- The frame that an object stands for: its pixels, or an empty slot if it has none. -/
def ofMembers (members : List (String × Json)) : Frame :=
  match pixels? members with
  | some data => .pixels data
  | none => .empty (.object (Table.ofEntries members))

/-- The frame that a value stands for. -/
def ofJson : Json → Frame
  | .object members => ofMembers members
  | v => .empty v

/-- The items of a value that must be a sequence. -/
def items : Json → Except Fault (List Json)
  | .array items => .ok items
  | v => .error (.wrongType (Found.of v) "a sequence")

/-- The byte that a value must be. -/
def byte : Json → Except Fault UInt8
  | .number n => (fun b => UInt8.ofNat b.toNat) <$> Reader.byte.check n
  | v => .error (.wrongType (Found.of v) Reader.byte.name)

/-- The frames of a value that must be a sequence. -/
def listOfJson (v : Json) : Except Fault (List Frame) := (·.map ofJson) <$> items v

/-- The pixels of a value that must be a sequence of sequences of bytes. -/
def pixelListsOfJson (v : Json) : Except Fault (List (List UInt8)) := do
  let bitmaps ← items v
  bitmaps.mapM fun bitmap => do
    let pixels ← items bitmap
    pixels.mapM byte

/-- Reads a frame. No value is refused. -/
def read (depth : Nat) : Reader Frame := do
  match ← start with
  | .brace => return ofMembers (← members depth)
  | _ => return .empty (← value depth)

end Frame

/-- A signed integer, at any depth. -/
def signedField (_depth : Nat) : Reader Int := integerValue signed64

/-- A string, at any depth. -/
def textField (_depth : Nat) : Reader String := textValue

/-- A natural number of a range, at any depth. -/
def naturalField (k : IntegerKind) (_depth : Nat) : Reader Nat := Int.toNat <$> integerValue k

def Player.record : Record Player where
  name := "Player"
  initial := default
  fields := [
    .must "id" signedField fun a p => { p with id := a },
    .must "room" signedField fun a p => { p with room := a },
    .must "x" signedField fun a p => { p with x := a },
    .must "y" signedField fun a p => { p with y := a }]

def Tile.record : Record Tile where
  name := "Tile"
  initial := ⟨0, "", none, 0, 0, false, []⟩
  fields := [
    .must "id" signedField fun a t => { t with id := a },
    .must "name" textField fun a t => { t with name := a },
    .may "fps" (fun _ => optional numberValue) fun a t => { t with fps := a },
    .may "type" signedField fun a t => { t with type := a },
    .may "btype" signedField fun a t => { t with btype := a },
    .may "solid" (fun _ => boolValue) fun a t => { t with solid := a },
    .may "frames" (listOf (naturalField index64)) fun a t => { t with frames := a }]

/-- The song of a room that names none. -/
def noSong : Int := -1

def Room.record : Record Room where
  name := "Room"
  initial := ⟨0, "", noSong, [], []⟩
  fields := [
    .must "id" signedField fun a r => { r with id := a },
    .must "name" textField fun a r => { r with name := a },
    .may "song" signedField fun a r => { r with song := a },
    .may "tiles" (listOf signedField) fun a r => { r with tiles := a },
    .may "exits" (listOf value) fun a r => { r with exits := a }]

def ScriptRecord.record : Record ScriptRecord where
  name := "RawScript"
  initial := ⟨0, 0, []⟩
  fields := [
    .must "id" signedField fun a s => { s with id := a },
    .must "type" (naturalField Reader.byte) fun a s => { s with type := a },
    .may "data" mapValue fun a s => { s with data := a }]

def Document.record : Record Document where
  name := "RawDocument"
  initial := ⟨"", none, default, [], [], [], [], [], []⟩
  fields := [
    .must "name" textField fun a d => { d with name := a },
    .may "author" (fun _ => optional textValue) fun a d => { d with author := a },
    .must "player" Player.record.read fun a d => { d with player := a },
    .may "frames" (listOf Frame.read) fun a d => { d with frames := a },
    .may "tiles" (listOf Tile.record.read) fun a d => { d with tiles := a },
    .may "rooms" (listOf Room.record.read) fun a d => { d with rooms := a },
    .may "sounds" (listOf value) fun a d => { d with sounds := a },
    .may "songs" (listOf value) fun a d => { d with songs := a },
    .may "scripts" (listOf ScriptRecord.record.read) fun a d => { d with scripts := a }]

def Document.parse (text : String) : Except Fault Document := Reader.run Document.record.read text

end GameScript
