import GameScript.Bitmap
import GameScript.Ledger
import GameScript.Lua.Value
import GameScript.Mimic.Folding
import GameScript.Promotion

/-! The unit that a game is compiled to: preamble, data tables, declarations, scripts, folded mimics,
accessors, start, and the diagnostics as comments. -/

namespace GameScript

/-- What a game is compiled to. -/
structure Product where
  text : String
  /-- The distinct bitmaps. -/
  bitmaps : List (List UInt8)
  diagnostics : List String
deriving DecidableEq, Repr

namespace Assembly

open Lua

/-- The locals that every unit starts with. -/
def preambleLocals : List (String × String) := [
  ("__sin", "math.sin"),
  ("__cos", "math.cos"),
  ("__tan", "math.tan"),
  ("__floor", "math.floor"),
  ("__ceil", "math.ceil"),
  ("__round", "function(x) return math.floor(x + 0.5) end"),
  ("__random", "math.random"),
  ("__tostring", "tostring"),
  ("__print", "print"),
  ("__sub", "string.sub"),
  ("__tau", "math.pi * 2"),
  ("__G", "_G"),
  ("__getTime", "playdate.getTime"),
  ("__getSecondsSinceEpoch", "playdate.getSecondsSinceEpoch"),
  ("__setcolour", "playdate.graphics.setColor"),
  ("__fillrect", "playdate.graphics.fillRect")]

def authorLine : Option String → String
  | some author => s!"  author = {quote author},\n"
  | none => ""

/-- The preamble: the runtime's table, the import of the runtime, and the locals. -/
def preamble (g : Game) : String :=
  "___pulp = \x7b\n" ++
  s!"  playerid = {g.player.id},\n" ++
  s!"  startroom = {g.player.room},\n" ++
  s!"  startx = {g.player.x},\n" ++
  s!"  starty = {g.player.y},\n" ++
  s!"  gamename = {quote g.name},\n" ++
  authorLine g.author ++
  "  tile_img = playdate.graphics.imagetable.new(\"tiles\")\n\x7d\n" ++
  "local __pulp <const> = ___pulp\nimport \"pulp\"\n\n" ++
  join (preambleLocals.map fun (name, value) => s!"local {name} <const> = {value}\n")

/-- The position of a tile's frame, counted from one; a frame that does not exist is reported and
replaced by the first one. -/
def tileFrame (atlas : Atlas) (tile : String) (frame : Nat) : Outcome String :=
  match atlas.indexOf? frame with
  | some i => return toString (i + 1)
  | none => do
      Outcome.note (.unknownFrame tile frame)
      return "1"

def tileFrames (atlas : Atlas) (tile : String) : List Nat → Outcome (List String)
  | [] => return []
  | frame :: frames => do
      let t ← tileFrame atlas tile frame
      let ts ← tileFrames atlas tile frames
      return t :: ts

def tileEntry (atlas : Atlas) (t : Tile) : Outcome String := do
  let frames ← tileFrames atlas t.name t.frames
  let fps := match t.fps with
    | some n => n.text
    | none => "nil"
  let solid := if t.solid then "true" else "false"
  return s!"__pulp.tiles[{t.id}] = \x7b\n  id = {t.id},\n  fps = {fps},\n" ++
    s!"  name = {quote t.name},\n  type = {t.type},\n  btype = {t.btype},\n  solid = {solid},\n" ++
    "  frames = \x7b " ++ ", ".intercalate frames ++ " \x7d,\n\x7d\n"

def tileEntries (atlas : Atlas) : List Tile → Outcome String
  | [] => return ""
  | t :: ts => do
      let entry ← tileEntry atlas t
      let rest ← tileEntries atlas ts
      return entry ++ rest

def tileTable (g : Game) (atlas : Atlas) : Outcome String := do
  let entries ← tileEntries atlas g.tiles
  return "\n__pulp.tiles = \x7b\x7d\n" ++ entries

/-- The scope in which all tiles of a game are known by name. -/
def tileScope (options : Options) (g : Game) : Scope :=
  g.tiles.foldl (fun s t => s.withTile t.name t.id) (Scope.initial options)

def roomWidth : Nat := 25

/-- A list cut into rows of a width; the last row may be shorter. -/
def rows {α : Type} (width : Nat) (items : List α) : List (List α) :=
  (List.range ((items.length + width - 1) / width)).map fun row =>
    (items.drop (row * width)).take width

def roomEntry (r : Room) : String :=
  s!"__pulp.rooms[{r.id}] = \x7b\n  id = {r.id},\n  name = {quote r.name},\n" ++
  s!"  song = {r.song},\n  tiles = \x7b\n" ++
  join ((rows roomWidth r.tiles).map fun row =>
    "    " ++ ", ".intercalate (row.map toString) ++ ",\n") ++
  "  \x7d,\n  exits = \x7b " ++ ", ".intercalate (r.exits.map value) ++ " \x7d,\n\x7d\n"

def roomTable (g : Game) : String :=
  "\n__pulp.rooms = \x7b\x7d\n" ++ join (g.rooms.map roomEntry)

/-- The key of a record: its own id, or its position when it has none. -/
def recordKey (position : Nat) (record : Json) : String :=
  match record.member? "id" with
  | some (.number n) => n.text
  | _ => toString position

def recordEntries (name : String) : Nat → List Json → String
  | _, [] => ""
  | position, record :: records =>
      s!"__pulp.{name}[{recordKey position record}] = {value record}\n" ++
        recordEntries name (position + 1) records

def recordTable (name : String) (records : List Json) : String :=
  s!"\n__pulp.{name} = " ++ "\x7b\x7d\n" ++ recordEntries name 0 records

def trailer (diagnostics : List String) : String :=
  if diagnostics.isEmpty then ""
  else "\n-- diagnostics:\n" ++ join (diagnostics.map fun m => s!"-- {oneLine m}\n")

/-- The mimics that are folded, set off by an empty line. -/
def foldedSection (folded : String) : String := if folded.isEmpty then "" else "\n" ++ folded

def dataTables (g : Game) (tiles : String) : String :=
  tiles ++ roomTable g ++ recordTable "sounds" g.sounds ++ recordTable "songs" g.songs

/-- The parts of a unit that come from the document and its scripts. -/
structure Parts where
  tiles : String
  registry : Registry
  scripts : String

def parts (options : Options) (g : Game) (atlas : Atlas) : Outcome Parts := do
  let tiles ← tileTable g atlas
  let registry ← Registry.build g
  let scripts ← Compile.scripts registry (tileScope options g) g.scripts
  return ⟨tiles, registry, scripts⟩

def unitText (options : Options) (g : Game) (p : Parts) (ledger : Ledger) : String :=
  let promotion := Promotion.ofUsage ledger.usage
  preamble g ++ dataTables g p.tiles ++ "\n" ++ promotion.declarations ++ p.scripts ++
    foldedSection (Mimic.fold p.registry ledger.candidates options.foldPasses) ++
    promotion.accessors ++ "\n__pulp:load()\n__pulp:start()\n" ++ trailer ledger.diagnostics

end Assembly

def Game.compile (options : Options) (g : Game) : Except CompileError Product :=
  let atlas := Atlas.build g.frames
  let x := Assembly.parts options g atlas
  let ledger := Ledger.empty.recordAll x.log
  x.result.map fun p => ⟨Assembly.unitText options g p ledger, atlas.unique, ledger.diagnostics⟩

end GameScript
