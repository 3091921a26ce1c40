import GameScript.Json.Basic

/-! The records of a game document: the player, the bitmaps, the tiles, the rooms and the scripts, the
last of them still as free values. -/

namespace GameScript

/-- Where the player starts, and the tile that shows the player. -/
structure Player where
  id : Int
  room : Int
  x : Int
  y : Int
deriving DecidableEq, Repr, Inhabited

/-- A bitmap of eight rows of eight pixels, or a slot that was never filled. -/
inductive Frame where
  | pixels (data : List UInt8)
  | empty (value : Json)
deriving Repr

/-- A kind of thing that rooms are laid out with. -/
structure Tile where
  id : Int
  name : String
  fps : Option Number
  type : Int
  btype : Int
  solid : Bool
  frames : List Nat
deriving DecidableEq, Repr, Inhabited

/-- A room: its tiles in reading order and the exits that lead out of it. -/
structure Room where
  id : Int
  name : String
  song : Int
  tiles : List Int
  exits : List Json
deriving Repr, Inhabited

/-- A script as it is stored: its data maps event names to blocks and holds further entries for the
editor. -/
structure ScriptRecord where
  id : Int
  type : Nat
  data : Table String Json
deriving Repr, Inhabited

structure Document where
  name : String
  author : Option String
  player : Player
  frames : List Frame
  tiles : List Tile
  rooms : List Room
  sounds : List Json
  songs : List Json
  scripts : List ScriptRecord
deriving Repr, Inhabited

end GameScript
