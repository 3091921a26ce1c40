import GameScript.Compile.Call
import GameScript.Compile.Outcome
import GameScript.Lua.Value
import GameScript.Lua.Variable

/-! Compiling expressions. An expression becomes one expression of the output language; a block in it
becomes a function. How blocks are compiled is a parameter, because blocks hold commands, which hold
expressions. -/

namespace GameScript
namespace Compile

open Lua

/-- How the block at an index is compiled in a scope, as a function of its own or not. -/
abbrev BodyCompiler := Scope → Bool → Nat → Outcome String

/-- The parameters of every handler and of every block that is handed over. -/
def handlerParameters : String := "__self, __actor, event, __evname"

/-- The placeholder for an expression that is not known, which is reported. -/
def unknown (tag : String) : Outcome String := do
  Outcome.note (.unknownExpression tag)
  return s!"nil --[[unknown expression code '{tag}']]"

/-- Reads or writes a variable: its spelling. -/
def useVariable (name : String) : Outcome String := do
  Outcome.entry (.use name)
  return variableRef name

/-- Reads a variable. Dotted names are no variables: the reserved ones stand for accessors, all
others are written as they are. -/
def readVariable (name : String) : Outcome String :=
  if isDotted name then
    match Accessor.ofName? name with
    | some a => do
        match a.declaration? with
        | some d => Outcome.declare d
        | none => pure ()
        return a.text
    | none => return name
  else useVariable name

/-- A block as a function that is handed over. -/
def callback (bodies : BodyCompiler) (s : Scope) (index : Nat) : Outcome String := do
  let body ← bodies (s.indented 2) true index
  return s!"function({handlerParameters})\n{body}{s.margin}  end"

/-- A reference to a tile by id, with its name as a comment. -/
def tileText (id : Int) (name : String) : String := inlineComment name ++ " " ++ toString id

/-- A text put together from pieces; there may be none. -/
def concatenation (pieces : List String) : String :=
  if pieces.isEmpty then "\"\"" else " .. ".intercalate pieces

mutual

def expression (bodies : BodyCompiler) (s : Scope) : Expr → Outcome String
  | .string t => return quote t
  | .number n => return n.text
  | .bool true => return "true"
  | .bool false => return "false"
  | .nil => return "nil"
  | .read name => readVariable name
  | .tile id name => return tileText id name
  | .format parts => concatenation <$> pieces bodies s parts
  | .embed inner => do
      let t ← expression bodies s inner
      return s!"__pulp.__ex_embed({t})"
  | .nameOf (.pair x y :: _) => do
      let x ← expression bodies s x
      let y ← expression bodies s y
      return s!"__roomtiles[{y}][{x}].name"
  | .nameOf args => Call.text .value ValueOp.name.opcode <$> arguments bodies s args
  | .value op args => Call.text .value op.opcode <$> arguments bodies s args
  | .block index => callback bodies s index
  | .pair _ _ => unknown "xy"
  | .rect _ => unknown "rect"
  | .unknown tag => unknown tag

/-- The pieces of a text: strings as they are, everything else turned into a string. -/
def pieces (bodies : BodyCompiler) (s : Scope) : List Expr → Outcome (List String)
  | [] => return []
  | .string t :: parts => do
      let ts ← pieces bodies s parts
      return quote t :: ts
  | part :: parts => do
      let t ← expression bodies s part
      let ts ← pieces bodies s parts
      return s!"__tostring({t})" :: ts

def arguments (bodies : BodyCompiler) (s : Scope) : List Expr → Outcome (List Argument)
  | [] => return []
  | .pair x y :: args => do
      let x ← expression bodies s x
      let y ← expression bodies s y
      let rest ← arguments bodies s args
      return .pair x y :: rest
  | .rect parts :: args => do
      let ts ← sides bodies s Argument.rectSlots.length parts
      let rest ← arguments bodies s args
      return .rect ts :: rest
  | .block index :: args => do
      let t ← callback bodies s index
      let rest ← arguments bodies s args
      return .callback t :: rest
  | arg :: args => do
      let t ← expression bodies s arg
      let rest ← arguments bodies s args
      return .plain t :: rest

/-- The parts of a rectangle, as many as have a slot. -/
def sides (bodies : BodyCompiler) (s : Scope) : Nat → List Expr → Outcome (List String)
  | 0, _ => return []
  | _, [] => return []
  | n + 1, part :: parts => do
      let t ← expression bodies s part
      let ts ← sides bodies s n parts
      return t :: ts

end

end Compile
end GameScript
