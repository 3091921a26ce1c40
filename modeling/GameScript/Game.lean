import GameScript.Document.Reader
import GameScript.Script.Decode

/-! A game: a document whose scripts are decoded. A script that cannot be decoded keeps the whole game
from loading. -/

namespace GameScript

structure Game where
  name : String
  author : Option String
  player : Player
  frames : List Frame
  tiles : List Tile
  rooms : List Room
  sounds : List Json
  songs : List Json
  scripts : List Script
deriving Repr, Inhabited

/-- Why a text holds no game. -/
inductive LoadError where
  | text (fault : Json.Fault)
  | script (type : Nat) (id : Int) (error : DecodeError)
deriving Repr

def LoadError.message : LoadError → String
  | .text fault => s!"Failed to parse JSON: {fault.message}"
  | .script type id error => s!"Decoding script type {type} id {id}: {error.message}"

namespace Game

/-- Decodes the scripts of a document, up to the first one that cannot be decoded. -/
def decodeScripts (records : List ScriptRecord) : Except LoadError (List Script) :=
  records.mapM fun r => (Script.decode r).mapError (.script r.type r.id)

def ofDocument (d : Document) : Except LoadError Game := do
  let scripts ← decodeScripts d.scripts
  return ⟨d.name, d.author, d.player, d.frames, d.tiles, d.rooms, d.sounds, d.songs, scripts⟩

def load (text : String) : Except LoadError Game :=
  match Document.parse text with
  | .error fault => .error (.text fault)
  | .ok document => ofDocument document

end Game
end GameScript
