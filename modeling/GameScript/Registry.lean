import GameScript.Compile.Command
import GameScript.Game
import GameScript.Table

/-! The registry of a game's scripts: a unique name for every script, and the events that each one
defines. A script that repeats the kind and id of an earlier one is left out. -/

namespace GameScript

/-- What a script belongs to: the kind and the id. -/
abbrev ScriptKey := ScriptKind × Int

def Script.key (s : Script) : ScriptKey := (s.kind, s.id)

/-- The scripts that are the first ones of their key, given the keys of those before them. -/
def firstScripts (seen : List ScriptKey) : List Script → List Script
  | [] => []
  | s :: ss =>
      if s.key ∈ seen then firstScripts seen ss else s :: firstScripts (s.key :: seen) ss

namespace Game

/-- The name that the document gives a script: that of the room or the tile at the position which
the script's id denotes. Only one global script has a name. -/
def givenName? (g : Game) : ScriptKey → Option String
  | (.global, id) => if id = 0 then some "game" else none
  | (.room, id) => if 0 ≤ id then (g.rooms[id.toNat]?).map Room.name else none
  | (.tile, id) => if 0 ≤ id then (g.tiles[id.toNat]?).map Tile.name else none

/-- The name of a script before it is made unique, and a note if the document gives it none. -/
def scriptName (g : Game) (key : ScriptKey) : Outcome String :=
  match g.givenName? key with
  | some name => return name
  | none => do
      Outcome.note (.unknownScript key.1 key.2)
      return s!"__UNKNOWN_SCRIPT_{key.1.code}_{key.2}"

end Game

/-- The names of the scripts, and the events that the script of each name defines. -/
structure Registry where
  names : Table ScriptKey String
  events : Table String (List String)
deriving DecidableEq, Repr

namespace Registry

def empty : Registry := ⟨[], []⟩

/-- The event of the catch-all handler. -/
def wildcard : String := "any"

def nameOf? (r : Registry) (key : ScriptKey) : Option String := Table.get? r.names key

/-- Whether the script of a name defines an event. -/
def defines (r : Registry) (script event : String) : Bool :=
  ((Table.get? r.events script).getD []).contains event

/-- The name that a script takes when its own is taken. -/
def qualified (key : ScriptKey) (base : String) : String := s!"{key.1.name}_{key.2}_{base}"

/-- The names that a script may get, in order of preference, as many as it takes for one of them to
be free. -/
def proposals (taken : List String) (key : ScriptKey) (base : String) : List String :=
  let second := qualified key base
  base :: second :: (List.range taken.length).map fun i => s!"{second}_{i + 2}"

/-- The first of a script's names that is free. -/
def freeName (taken : List String) (key : ScriptKey) (base : String) : String :=
  ((proposals taken key base).find? fun name => !taken.contains name).getD base

/-- Each text once, in order of first appearance. -/
def distinct (texts : List String) : List String :=
  texts.foldl (fun done t => if t ∈ done then done else done ++ [t]) []

def add (g : Game) (r : Registry) (s : Script) : Outcome Registry :=
  if (r.nameOf? s.key).isSome then do
    Outcome.note (.duplicateScript s.kind s.id)
    return r
  else do
    let base ← g.scriptName s.key
    let name := freeName (Table.keys r.events) s.key base
    return ⟨Table.put r.names s.key name,
      Table.put r.events name (distinct (s.events.map Prod.fst))⟩

def addAll (g : Game) (r : Registry) : List Script → Outcome Registry
  | [] => return r
  | s :: ss => do
      let r ← add g r s
      addAll g r ss

/-- The registry of a game, which is complete before any script is compiled. -/
def build (g : Game) : Outcome Registry := addAll g empty g.scripts

end Registry

namespace Compile

open Lua

/-- The script of a name, at run time. -/
def scriptObject (name : String) : String := s!"__pulp:getScript({quote name})"

/-- The tile whose handlers stand for those of a block: the block is one mimic of a known tile, next
to nothing but decoration. -/
def pureMimic? (s : Scope) (cs : Block) : Option Int :=
  match cs.filter fun c => !c.isDecoration with
  | [.mimic target] => s.tileId? target
  | _ => none

/-- The function of an event. -/
def event (s : Scope) (script : String) (event : String) (index : Nat) : Outcome String := do
  let cs ← Outcome.ofExcept (s.blockAt index)
  let body ← body (s.withTarget (scriptObject script)) true index
  match pureMimic? s cs with
  | some tile => Outcome.entry (.candidate ⟨script, event, tile⟩)
  | none => pure ()
  return s!"{field (scriptObject script) event} = function({handlerParameters})\n{body}end\n"

def events (s : Scope) (script : String) : List (String × Nat) → Outcome String
  | [] => return ""
  | (name, index) :: rest => do
      let t ← event s script name index
      let ts ← events s script rest
      return s!"\n{t}{ts}"

/-- The lines that make a script known at run time. -/
def registration (name : String) (key : ScriptKey) : String :=
  s!"\n----------------- {oneLine name} ----------------------------\n" ++
  s!"__pulp:newScript({quote name})\n" ++
  s!"__pulp:associateScript({quote name}, \"{key.1.name}\", {key.2})\n"

/-- A script: its registration and a function for each event. -/
def script (r : Registry) (s : Scope) (x : Script) : Outcome String :=
  match r.nameOf? x.key with
  | none => return ""
  | some name => do
      let t ← events (s.withBlocks x.blocks) name x.events
      return registration name x.key ++ t

def scriptList (r : Registry) (s : Scope) : List Script → Outcome String
  | [] => return ""
  | x :: xs => do
      let t ← script r s x
      let ts ← scriptList r s xs
      return t ++ ts

/-- All scripts of a game that are the first ones of their kind and id. -/
def scripts (r : Registry) (s : Scope) (xs : List Script) : Outcome String :=
  scriptList r s (firstScripts [] xs)

end Compile
end GameScript
