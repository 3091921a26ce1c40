/-! The closed sets of operations that scripts name: effects, values, comparisons and assignments,
each with its name and the table of all of them in order. -/

namespace GameScript

/-- Operations that only have a side effect. -/
inductive Effect where
  | goto | shake | fin | hide | draw | bpm | sound | invert | frame | fill | swap | label | restore
  | store | toss | wait | say | ask | menu | option | act | loop | once | stop | ignore | listen
  | log | dump | window | crop | play
deriving DecidableEq, Repr

namespace Effect

def all : List Effect :=
  [goto, shake, fin, hide, draw, bpm, sound, invert, frame, fill, swap, label, restore, store, toss,
   wait, say, ask, menu, option, act, loop, once, stop, ignore, listen, log, dump, window, crop,
   play]

def name : Effect → String
  | goto => "goto"
  | shake => "shake"
  | fin => "fin"
  | hide => "hide"
  | draw => "draw"
  | bpm => "bpm"
  | sound => "sound"
  | invert => "invert"
  | frame => "frame"
  | fill => "fill"
  | swap => "swap"
  | label => "label"
  | restore => "restore"
  | store => "store"
  | toss => "toss"
  | wait => "wait"
  | say => "say"
  | ask => "ask"
  | menu => "menu"
  | option => "option"
  | act => "act"
  | loop => "loop"
  | once => "once"
  | stop => "stop"
  | ignore => "ignore"
  | listen => "listen"
  | log => "log"
  | dump => "dump"
  | window => "window"
  | crop => "crop"
  | play => "play"

def ofName? (s : String) : Option Effect := all.find? fun e => e.name = s

theorem ofName?_name (e : Effect) : ofName? e.name = some e := by cases e <;> decide

end Effect

/-- Operations that produce a value. -/
inductive ValueOp where
  | type | solid | frame | floor | round | ceil | invert | name | random | sine | cosine | tangent
  | degrees | radians | lpad | rpad
deriving DecidableEq, Repr

namespace ValueOp

def all : List ValueOp :=
  [type, solid, frame, floor, round, ceil, invert, name, random, sine, cosine, tangent, degrees,
   radians, lpad, rpad]

def opcode : ValueOp → String
  | type => "type"
  | solid => "solid"
  | frame => "frame"
  | floor => "floor"
  | round => "round"
  | ceil => "ceil"
  | invert => "invert"
  | name => "name"
  | random => "random"
  | sine => "sine"
  | cosine => "cosine"
  | tangent => "tangent"
  | degrees => "degrees"
  | radians => "radians"
  | lpad => "lpad"
  | rpad => "rpad"

def ofName? (s : String) : Option ValueOp := all.find? fun v => v.opcode = s

theorem ofName?_opcode (v : ValueOp) : ofName? v.opcode = some v := by cases v <;> decide

end ValueOp

/-- Comparison operators. -/
inductive Compare where
  | lt | lte | gt | gte | eq | neq
deriving DecidableEq, Repr

namespace Compare

def all : List Compare := [lt, lte, gt, gte, eq, neq]

def name : Compare → String
  | lt => "lt"
  | lte => "lte"
  | gt => "gt"
  | gte => "gte"
  | eq => "eq"
  | neq => "neq"

/-- The operator in compiled text. -/
def symbol : Compare → String
  | lt => "<"
  | lte => "<="
  | gt => ">"
  | gte => ">="
  | eq => "=="
  | neq => "~="

def ofName? (s : String) : Option Compare := all.find? fun c => c.name = s

theorem ofName?_name (c : Compare) : ofName? c.name = some c := by cases c <;> decide

end Compare

/-- The ways of writing a variable: a plain store, or one combined with arithmetic. -/
inductive AssignOp where
  | set | add | sub | mul | div
deriving DecidableEq, Repr

namespace AssignOp

def all : List AssignOp := [set, add, sub, mul, div]

def name : AssignOp → String
  | set => "set"
  | add => "add"
  | sub => "sub"
  | mul => "mul"
  | div => "div"

/-- The arithmetic operator, which a plain store has not. -/
def operator? : AssignOp → Option String
  | set => none
  | add => some "+"
  | sub => some "-"
  | mul => some "*"
  | div => some "/"

def ofName? (s : String) : Option AssignOp := all.find? fun a => a.name = s

end AssignOp
end GameScript
