import GameScript.Registry

/-! Mimic folding. A handler that only mimics a known tile is re-pointed at the handler that it would
end up in. The assignments are simulated over a table of slots for a number of rounds, and the text
that carries them out reads every handler before it writes any slot. -/

namespace GameScript
namespace Mimic

/-- The handler that a slot holds: the script that defined it, and under which event. -/
abbrev Binding := String × String

/-- A slot: a script and an event. -/
abbrev Slot := String × String

/-- The slots of all scripts, and those that folding has written, in order of their first writing. -/
structure Slots where
  table : Table String (Table String Binding)
  written : Table Slot Binding
deriving DecidableEq, Repr

namespace Slots

/-- The slots as the scripts define them: every handler in its own slot. -/
def initial (r : Registry) : Slots where
  table := r.events.map fun (script, events) => (script, events.map fun e => (e, (script, e)))
  written := []

def row (s : Slots) (script : String) : Table String Binding :=
  (Table.get? s.table script).getD []

def get? (s : Slots) (script event : String) : Option Binding := Table.get? (s.row script) event

/-- Writes a handler into a slot, unless it is there already. -/
def set (s : Slots) (script event : String) (b : Binding) : Slots :=
  if s.get? script event = some b then s
  else {
    table := Table.put s.table script (Table.put (s.row script) event b)
    written := Table.put s.written (script, event) b }

end Slots

/-- Copies the handlers that a script takes over from another: all those for events that it does not
define itself. -/
def inherit (r : Registry) (s : Slots) (source target : String) : Slots :=
  let inherited := (s.row target).filter fun e => !r.defines source e.1
  inherited.foldl (fun s e => s.set source e.1 e.2) s

/-- Re-points the slot of a candidate at the handler that its tile has for the same event, or at the
tile's catch-all handler. A catch-all candidate takes over every handler of the tile. -/
def apply (r : Registry) (s : Slots) (c : Candidate) : Slots :=
  match r.nameOf? (.tile, c.tile) with
  | none => s
  | some target =>
      if target = c.source then s
      else if c.event = Registry.wildcard then inherit r s c.source target
      else
        match (s.get? target c.event).or (s.get? target Registry.wildcard) with
        | some b => s.set c.source c.event b
        | none => s

def round (r : Registry) (candidates : List Candidate) (s : Slots) : Slots :=
  candidates.foldl (apply r) s

/-- Rounds of folding, up to the first one that changes nothing. -/
def rounds (r : Registry) (candidates : List Candidate) : Nat → Slots → Slots
  | 0, s => s
  | n + 1, s =>
      let t := round r candidates s
      if t.written = s.written then t else rounds r candidates n t

/-- The written slots that hold a handler other than their own. -/
def assignments (written : Table Slot Binding) : List (Slot × Binding) :=
  written.filter fun a => a.1 ≠ a.2

def slotText (s : Slot) : String := Lua.field (Compile.scriptObject s.1) s.2

/-- The texts of the handlers that are read, each once, in order of their first use. -/
def sources (as : List (Slot × Binding)) : List String :=
  Registry.distinct (as.map fun a => slotText a.2)

/-- The line that writes a slot from the handlers that were read. -/
def assignmentLine (sources : List String) (a : Slot × Binding) : String :=
  s!"  {slotText a.1} = __folded[{sources.idxOf (slotText a.2) + 1}]\n"

/-- The text that carries out the assignments; without any there is none. -/
def text (written : Table Slot Binding) : String :=
  let as := assignments written
  if as.isEmpty then ""
  else
    let handlers := sources as
    "-- mimic folding\ndo\n  local __folded = \x7b\n" ++
      Lua.join (handlers.map fun h => s!"    {h},\n") ++ "  \x7d\n" ++
      Lua.join (as.map (assignmentLine handlers)) ++ "end\n"

/-- Folds the candidates in a number of rounds: the text that applies the result. -/
def fold (r : Registry) (candidates : List Candidate) (passes : Nat) : String :=
  text (rounds r candidates passes (Slots.initial r)).written

end Mimic
end GameScript
