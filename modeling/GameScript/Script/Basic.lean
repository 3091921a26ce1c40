import GameScript.Json.Basic
import GameScript.Script.Opcode

/-! Scripts: handlers of events, each a block of commands. Blocks are kept in the script and referred
to by index, so several commands may share one. -/

namespace GameScript

inductive Expr where
  | string (s : String)
  | number (n : Number)
  | bool (b : Bool)
  | nil
  /-- A variable, read by name. -/
  | read (name : String)
  /-- A tile known by id; its name only annotates the output. -/
  | tile (id : Int) (name : String)
  /-- Parts put together into one text. -/
  | format (parts : List Expr)
  | embed (inner : Expr)
  /-- A pair of coordinates given as one argument. -/
  | pair (x y : Expr)
  /-- A rectangle given as one argument: x, y, width and mostly a height. -/
  | rect (parts : List Expr)
  /-- The name of a tile in the room, or of whatever the arguments denote. -/
  | nameOf (args : List Expr)
  | value (op : ValueOp) (args : List Expr)
  /-- A block that is handed over to be run later. -/
  | block (index : Nat)
  | unknown (tag : String)
deriving Repr, BEq

structure Comparison where
  op : Compare
  left : Expr
  right : Expr
deriving Repr, BEq

/-- A further branch of a conditional. -/
inductive Clause where
  | elseIf (comparison : Comparison) (block : Nat)
  | otherwise (block : Nat)
deriving Repr, BEq

/-- What a block of commands is told to. -/
inductive TellTarget where
  /-- The occupant of a place in the room. -/
  | place (x y : Expr)
  | room
  | player
  | game
  /-- Anything else, found when the script runs. -/
  | named (name : Expr)
deriving Repr, BEq

inductive Command where
  | noop
  | comment
  | continuedComment
  /-- An early return from the handler. -/
  | done
  | assign (target : String) (op : AssignOp) (value : Expr)
  | increment (target : String)
  | decrement (target : String)
  | cond (comparison : Comparison) (block : Nat) (clauses : List Clause)
  | loop (comparison : Comparison) (block : Nat)
  | call (name : Expr)
  | emit (name : Expr)
  | mimic (target : Expr)
  | tell (target : TellTarget) (block : Nat)
  | effect (op : Effect) (args : List Expr)
  | unknown (tag : String)
deriving Repr, BEq

/-- Whether a command never produces code of its own. -/
def Command.isDecoration : Command → Bool
  | .noop | .comment | .continuedComment => true
  | _ => false

abbrev Block := List Command

/-- What a script belongs to. -/
inductive ScriptKind where
  | global
  | room
  | tile
deriving DecidableEq, Repr

namespace ScriptKind

def name : ScriptKind → String
  | global => "global"
  | room => "room"
  | tile => "tile"

def code : ScriptKind → Nat
  | global => 0
  | room => 1
  | tile => 2

def ofCode? : Nat → Option ScriptKind
  | 0 => some global
  | 1 => some room
  | 2 => some tile
  | _ => none

theorem ofCode?_code (k : ScriptKind) : ofCode? k.code = some k := by cases k <;> rfl

end ScriptKind

/-- A script: its events in order, each with the index of its block, and its blocks. -/
structure Script where
  kind : ScriptKind
  id : Int
  events : List (String × Nat)
  blocks : List Block
deriving Repr, BEq

end GameScript
