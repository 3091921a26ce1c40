import GameScript.Script.Basic
import GameScript.Lua.Token

/-! What a compile may look at: the options, the indentation, the object that calls dispatch on, the
blocks of the script and the known tiles. Nothing that was compiled before is among it. -/

namespace GameScript

/-- The choices for one compile. -/
structure Options where
  foldPasses : Nat
  /-- Whether compound assignments are written as such. -/
  relativeAssign : Bool
deriving DecidableEq, Repr

namespace Options

def standard : Options := ⟨5, true⟩

instance : Inhabited Options := ⟨standard⟩

end Options

/-- What a compile looks at. -/
structure Scope where
  options : Options
  indent : Nat
  /-- The objects that calls dispatch on, innermost first. -/
  targets : List String
  /-- The blocks of the script that is being compiled. -/
  blocks : List Block
  /-- The tiles known by name, latest first. -/
  tiles : List (String × Int)
deriving Repr

namespace Scope

def initial (options : Options) : Scope := ⟨options, 1, [], [], []⟩

/-- The object that calls dispatch on outside of every handler. -/
def emptyTarget : String := "__pulp.EMPTY"

/-- The object that calls dispatch on. -/
def target (s : Scope) : String := s.targets.head?.getD emptyTarget

/-- The blanks in front of a line. -/
def margin (s : Scope) : String := String.ofList (List.replicate (2 * s.indent) ' ')

def indented (s : Scope) (levels : Nat) : Scope := { s with indent := s.indent + levels }

/-- The scope inside a dispatch target. -/
def withTarget (s : Scope) (target : String) : Scope := { s with targets := target :: s.targets }

/-- The scope of another script. -/
def withBlocks (s : Scope) (blocks : List Block) : Scope := { s with blocks := blocks }

/-- The scope with one more known tile, which hides an earlier one of the same name. -/
def withTile (s : Scope) (name : String) (id : Int) : Scope :=
  { s with tiles := (name, id) :: s.tiles }

/-- The id of the tile that an expression denotes whatever happens when it runs: a literal name of
a known tile, a literal integer, or a tile already known. -/
def tileId? (s : Scope) : Expr → Option Int
  | .string name => s.tiles.lookup name
  | .number n => n.signed64?
  | .tile id _ => some id
  | _ => none

/-- The known tile that an expression denotes. -/
def foldTile? (s : Scope) : Expr → Option Expr
  | .string name => (s.tiles.lookup name).map fun id => .tile id name
  | .number n => n.signed64?.map fun id => .tile id (toString id)
  | .tile id name => some (.tile id name)
  | _ => none

end Scope
end GameScript
