import GameScript.Lua.Token

/-! How the variables of a program are spelled. A variable is a local or an entry of the variable
table; dotted names are no variables, and some of them are accessors that the runtime provides. -/

namespace GameScript
namespace Lua

/-- The table behind every variable that is not held in a local. -/
def variableTable : String := "__G"

/-- The spelling of a variable: its bare name where that is an identifier, otherwise an index into
the variable table. -/
def variableRef (name : String) : String :=
  let emitted := escapeReserved name
  if isIdentifier emitted then emitted else variableTable ++ "[" ++ quote emitted ++ "]"

/-- What a reserved name stands for. -/
inductive Accessor where
  /-- A value that is computed once in a function and kept in a local. -/
  | cached (name initial : String)
  /-- A field of the time at which the function runs, which is taken once. -/
  | time (text : String)
  /-- A text of its own. -/
  | direct (text : String)
deriving DecidableEq, Repr

namespace Accessor

def text : Accessor → String
  | cached name _ => name
  | time text => text
  | direct text => text

/-- The declaration that a function needs for an accessor. -/
def declaration? : Accessor → Option String
  | cached name initial => some ("local " ++ name ++ " = " ++ initial)
  | time _ => some "local __time = __getTime()"
  | direct _ => none

def table : List (String × Accessor) := [
  ("event.px", .cached "__event_px" "__pulp.player.x"),
  ("event.py", .cached "__event_py" "__pulp.player.y"),
  ("event.x", .cached "__event_x" "__actor.x or __pulp.player.x"),
  ("event.y", .cached "__event_y" "__actor.y or __pulp.player.y"),
  ("event.dx", .cached "__event_dx" "event.dx or 0"),
  ("event.dy", .cached "__event_dy" "event.dy or 0"),
  ("event.tile", .cached "__event_tile" "__actor.name or 0"),
  ("datetime.year", .time "__time.year"),
  ("datetime.year99", .time "(__time.year % 100)"),
  ("datetime.month", .time "__time.month"),
  ("datetime.day", .time "__time.day"),
  ("datetime.weekday", .time "(__time.weekday - 1)"),
  ("datetime.hour", .time "__time.hour"),
  ("datetime.hour12", .time "((__time.hour % 12) + 1)"),
  ("datetime.minute", .time "__time.minute"),
  ("datetime.second", .time "__time.second"),
  ("datetime.millisecond", .time "__time.millisecond"),
  ("datetime.ampm", .time "(__time.hour < 12 and \"am\" or \"pm\")"),
  ("datetime.AMPM", .time "(__time.hour < 12 and \"AM\" or \"PM\")"),
  ("event.room", .direct "event.room.name"),
  ("event.player", .direct "__pulp.player.name"),
  ("datetime.timestamp", .direct "__getSecondsSinceEpoch()")]

def ofName? (name : String) : Option Accessor := table.lookup name

end Accessor

/-- Whether a name is the runtime's: programs may read it but never assign it. -/
def isReservedName (name : String) : Bool := (Accessor.ofName? name).isSome

def isDotted (name : String) : Bool := name.toList.contains '.'

end Lua
end GameScript
