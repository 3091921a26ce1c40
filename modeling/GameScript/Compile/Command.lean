import GameScript.Compile.Expression

/-! Compiling commands and blocks. A command becomes a run of complete lines at the current
indentation. A block that is a function of its own declares at its top what its accessors and calls
need, each declaration once. -/

namespace GameScript
namespace Compile

open Lua

/-- The name that a command writes to; the names of the runtime cannot be written. -/
def writeTarget (target : String) : Outcome String :=
  if isReservedName target then Outcome.fail (.reservedName target) else readVariable target

/-- An assignment that is combined with arithmetic, written as such or spelled out. -/
def compound (s : Scope) (target operator value : String) : String :=
  if s.options.relativeAssign then s!"{target} {operator}= {value}"
  else s!"{target} = {target} {operator} {value}"

def assignment (bodies : BodyCompiler) (s : Scope) (target : String) (op : AssignOp)
    (value : Expr) : Outcome String := do
  let target ← writeTarget target
  let value ← expression bodies s value
  match op.operator? with
  | none => return s!"{target} = {value}"
  | some operator => return compound s target operator value

def step (s : Scope) (target operator : String) : Outcome String := do
  let target ← writeTarget target
  return compound s target operator "1"

/-- A comparison. A bare left operand that looks like a name is a variable. -/
def comparison (bodies : BodyCompiler) (s : Scope) (c : Comparison) : Outcome String := do
  let left ← match c.left with
    | .string name => if isToken name then readVariable name else pure (quote name)
    | e => expression bodies s e
  let right ← expression bodies s c.right
  return s!"{left} {c.op.symbol} {right}"

def branches (bodies : BodyCompiler) (s : Scope) : List Clause → Outcome String
  | [] => return ""
  | .elseIf c block :: clauses => do
      let head ← comparison bodies s c
      let body ← bodies (s.indented 1) false block
      let rest ← branches bodies s clauses
      return s!"{s.margin}elseif {head} then\n{body}{rest}"
  | .otherwise block :: clauses => do
      let body ← bodies (s.indented 1) false block
      let rest ← branches bodies s clauses
      return s!"{s.margin}else\n{body}{rest}"

def conditional (bodies : BodyCompiler) (s : Scope) (c : Comparison) (block : Nat)
    (clauses : List Clause) : Outcome String := do
  let head ← comparison bodies s c
  let body ← bodies (s.indented 1) false block
  let rest ← branches bodies s clauses
  return s!"if {head} then\n{body}{rest}{s.margin}end"

def loop (bodies : BodyCompiler) (s : Scope) (c : Comparison) (block : Nat) : Outcome String := do
  let head ← comparison bodies s c
  let body ← bodies (s.indented 1) false block
  return s!"while {head} do\n{body}{s.margin}end"

/-- The slot that a call looks up, and the name that it passes on. -/
def callSlot (bodies : BodyCompiler) (s : Scope) : Expr → Outcome (String × String)
  | .string name =>
      if isIdentifier name then return (field "__evobj" name, quote name)
      else return (s!"__evobj[{quote name}]", quote name)
  | e => do
      let name ← expression bodies s e
      return (s!"__evobj[{name}]", name)

/-- Calls a slot of the object that calls dispatch on, or its catch-all handler. -/
def call (bodies : BodyCompiler) (s : Scope) (name : Expr) : Outcome String := do
  Outcome.declare s!"local __evobj = {s.target}"
  let (slot, name) ← callSlot bodies s name
  return s!";({slot} or __evobj.any)(__evobj, __actor, event, {name}) -- call {oneLine name}"

/-- The object that a mimic looks its handler up in. -/
def mimicLookup (bodies : BodyCompiler) (s : Scope) (target : Expr) : Outcome String :=
  match s.foldTile? target with
  | some tile => do
      let t ← expression bodies s tile
      return s!"((__pulp.tiles[{t}] or __pulp.EMPTY).script or __pulp.EMPTY)"
  | none => do
      let t ← expression bodies s target
      return s!"(__pulp:getScript({t}) or __pulp.EMPTY)"

/-- Runs the handler that another script has for the same event, as that script. -/
def mimic (bodies : BodyCompiler) (s : Scope) (target : Expr) : Outcome String := do
  let lookup ← mimicLookup bodies s target
  let gi := s.margin
  return s!"do -- (mimic)\n{gi}  local __mimic_target__ = {lookup}\n" ++
    s!"{gi}  ;(__mimic_target__[__evname] or __mimic_target__.any)" ++
    s!"(__mimic_target__, __actor, event, __evname)\n{gi}end"

/-- The object that calls dispatch on inside of a tell. -/
def toldTarget : String := "__actor.script or __pulp.EMPTY"

/-- Runs a block as the actor that it is told to, if there is one. -/
def told (bodies : BodyCompiler) (s : Scope) (label actor guard : String) (block : Nat) :
    Outcome String := do
  let body ← bodies ((s.indented 2).withTarget toldTarget) true block
  let gi := s.margin
  return s!"do --tell {label} to\n{gi}  local __actor = {actor}\n{gi}  if {guard} then\n" ++
    s!"{body}{gi}  end\n{gi}end"

def tell (bodies : BodyCompiler) (s : Scope) (target : TellTarget) (block : Nat) :
    Outcome String :=
  match target with
  | .place x y => do
      let y ← expression bodies s y
      let x ← expression bodies s x
      told bodies s "x,y" s!"__roomtiles[{y}][{x}]" "__actor and __actor.tile" block
  | .room => told bodies s "event.room" "event.room" "__actor" block
  | .game => told bodies s "event.game" "event.game" "__actor" block
  | .player => told bodies s "__pulp.player" "__pulp.player" "__actor" block
  | .named name =>
      Call.text .effect "tell" <$>
        arguments bodies s [(s.foldTile? name).getD name, .block block]

/-- The line or lines of a command without the first margin and the last line break; a command may
have none. -/
def line (bodies : BodyCompiler) (s : Scope) : Command → Outcome (Option String)
  | .noop => return none
  | .comment => return some "--(comment omitted)"
  | .continuedComment => return some "--(previous-line comment omitted)"
  | .done => return some "do return end"
  | .assign target op value => some <$> assignment bodies s target op value
  | .increment target => some <$> step s target "+"
  | .decrement target => some <$> step s target "-"
  | .cond c block clauses => some <$> conditional bodies s c block clauses
  | .loop c block => some <$> loop bodies s c block
  | .call name => some <$> call bodies s name
  | .emit name => do
      let t ← expression bodies s name
      return some s!"__pulp:emit({t}, event)"
  | .mimic target => some <$> mimic bodies s target
  | .tell target block => some <$> tell bodies s target block
  | .effect op args => do
      let args ← arguments bodies s args
      return some (Call.text .effect op.name args)
  | .unknown tag => do
      Outcome.note (.unknownCommand tag)
      return some s!"--unknown command code '{tag}'"

/-- A command: nothing, or complete lines at the current indentation. -/
def commandWith (bodies : BodyCompiler) (s : Scope) (c : Command) : Outcome String := do
  match ← line bodies s c with
  | none => return ""
  | some t => return s!"{s.margin}{t}\n"

def commandsWith (bodies : BodyCompiler) (s : Scope) : List Command → Outcome String
  | [] => return ""
  | c :: cs => do
      let t ← commandWith bodies s c
      let rest ← commandsWith bodies s cs
      return t ++ rest

/-- Lines at the current indentation. -/
def declarationLines (s : Scope) (ds : List String) : String :=
  join (ds.map fun d => s!"{s.margin}{d}\n")

/-- A block, as a function of its own or as a part of the one around it. -/
def blockWith (bodies : BodyCompiler) (s : Scope) (isFunction : Bool) (cs : Block) :
    Outcome String :=
  if isFunction then do
    let (body, ds) ← (commandsWith bodies s cs).functionScope
    return declarationLines s ds ++ body
  else commandsWith bodies s cs

/-- The block at an index, with at most so many levels of blocks in one another. -/
def bodyWithin : Nat → BodyCompiler
  | 0, s, _, index =>
      match s.blockAt index with
      | .ok _ => Outcome.fail (.cyclicBlock index)
      | .error e => Outcome.fail e
  | levels + 1, s, isFunction, index =>
      match s.blockAt index with
      | .ok cs => blockWith (bodyWithin levels) s isFunction cs
      | .error e => Outcome.fail e

/-- The block at an index. Where no block reaches itself, blocks are nested no deeper than there are
blocks. -/
def body (s : Scope) (isFunction : Bool) (index : Nat) : Outcome String :=
  bodyWithin s.blocks.length s isFunction index

def command (s : Scope) (c : Command) : Outcome String := commandWith body s c

def block (s : Scope) (isFunction : Bool) (cs : Block) : Outcome String :=
  blockWith body s isFunction cs

def expr (s : Scope) (e : Expr) : Outcome String := expression body s e

def callOf (s : Scope) (kind : CallKind) (op : String) (args : List Expr) : Outcome String :=
  Call.text kind op <$> arguments body s args

end Compile
end GameScript
