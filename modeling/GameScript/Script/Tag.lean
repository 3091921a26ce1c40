import GameScript.Script.Basic

/-! The tags that stand in front of an expression or a command in its stored form. Fixed tags come
before the names of operations, so the tag `name` is never a value operation. -/

namespace GameScript

/-- The tags of expressions. -/
inductive ExprTag where
  | get | format | embed | xy | rect | block | name
  | value (op : ValueOp)
deriving DecidableEq, Repr

namespace ExprTag

/-- The tags that are no operations. -/
def fixed : List ExprTag := [get, format, embed, xy, rect, block, name]

def text : ExprTag → String
  | get => "get"
  | format => "format"
  | embed => "embed"
  | xy => "xy"
  | rect => "rect"
  | block => "block"
  | name => "name"
  | value op => op.opcode

def ofText? (s : String) : Option ExprTag :=
  match fixed.find? fun t => t.text = s with
  | some t => some t
  | none => (ValueOp.ofName? s).map value

end ExprTag

/-- The tags of commands. -/
inductive CommandTag where
  | noop | comment | continuedComment | done | increment | decrement | cond | loop | call | emit
  | mimic | tell
  | assign (op : AssignOp)
  | effect (op : Effect)
deriving DecidableEq, Repr

namespace CommandTag

/-- The tags that are no effects. -/
def fixed : List CommandTag :=
  [noop, comment, continuedComment, done] ++ AssignOp.all.map assign ++
    [increment, decrement, cond, loop, call, emit, mimic, tell]

def text : CommandTag → String
  | noop => "_"
  | comment => "#"
  | continuedComment => "#$"
  | done => "done"
  | increment => "inc"
  | decrement => "dec"
  | cond => "if"
  | loop => "while"
  | call => "call"
  | emit => "emit"
  | mimic => "mimic"
  | tell => "tell"
  | assign op => op.name
  | effect op => op.name

def ofText? (s : String) : Option CommandTag :=
  match fixed.find? fun t => t.text = s with
  | some t => some t
  | none => (Effect.ofName? s).map effect

end CommandTag

/-- The tags of the further branches of a conditional. -/
inductive ClauseTag where
  | elseIf | otherwise
deriving DecidableEq, Repr

namespace ClauseTag

def text : ClauseTag → String
  | elseIf => "elseif"
  | otherwise => "else"

def ofText? (s : String) : Option ClauseTag := [elseIf, otherwise].find? fun t => t.text = s

end ClauseTag
end GameScript
