import GameScript.Proofs.Lua.Spelled
import GameScript.Proofs.Script.Reference
import GameScript.Compile.Command

/-! Which texts of a document the compiler can put into its own text so that a reader finds the end of them: a
literal has no carriage return, a comment has no closer of its own and stays on its line, and a dotted name is an
accessor or a path of names. Whatever else is in a script, its text can then be read token by token. -/

namespace GameScript

open Lua

/-- A text that ends where it should as a literal. -/
def isLegibleText (t : String) : Bool := !t.toList.contains '\r'

/-- Letters, digits and underscores, without a digit in front, that are no keyword. -/
def Lua.isPlainName (cs : List Char) : Bool :=
  match cs with
  | [] => false
  | c :: cs => !c.isDigit && (c :: cs).all isIdentifierChar && !keywords.contains (String.ofList (c :: cs))

/-- A name that can be written and read where a variable is meant. -/
def isLegibleName (name : String) : Bool :=
  if isDotted name then isReservedName name || (name.toList.splitOn '.').all isPlainName else isLegibleText name

/-- A name of a tile that ends where it should in the comment at its id. -/
def isLegibleTile (name : String) : Bool := isLegibleText name && !decide ([']', ']', ']'] <:+: name.toList)

/-- A tag that ends where it should in the comment behind the placeholder for an unknown expression. -/
def isLegibleTag (tag : String) : Bool := isLegibleText tag && !decide ([']', ']'] <:+: tag.toList)

namespace Expr

mutual

/-- Each text of the expression can be put where it stands, and each block that it refers to is among the known
ones. -/
def isLegible (known : List Nat) : Expr → Bool
  | .string t => isLegibleText t
  | .read name => isLegibleName name
  | .tile _ name => isLegibleTile name
  | .unknown tag => isLegibleTag tag
  | .embed inner => isLegible known inner
  | .pair x y => isLegible known x && isLegible known y
  | .format parts | .rect parts | .nameOf parts | .value _ parts => areLegible known parts
  | .block index => known.contains index
  | .number _ | .bool _ | .nil => true

def areLegible (known : List Nat) : List Expr → Bool
  | [] => true
  | e :: es => isLegible known e && areLegible known es

end

theorem areLegible_iff {known : List Nat} {es : List Expr} :
    areLegible known es = true ↔ ∀ e ∈ es, e.isLegible known = true := by
  induction es with
  | nil => simp [areLegible]
  | cons e es ih => simp [areLegible, ih]

end Expr

/-- A bare left operand is a name or a literal. -/
def Comparison.isLegible (known : List Nat) (c : Comparison) : Bool :=
  (match c.left with
    | .string name => if isToken name then isLegibleName name else isLegibleText name
    | e => e.isLegible known) && c.right.isLegible known

def Clause.isLegible (known : List Nat) : Clause → Bool
  | .elseIf c block => c.isLegible known && known.contains block
  | .otherwise block => known.contains block

def TellTarget.isLegible (known : List Nat) : TellTarget → Bool
  | .place x y => x.isLegible known && y.isLegible known
  | .room | .player | .game => true
  | .named name => name.isLegible known

def Command.isLegible (known : List Nat) : Command → Bool
  | .noop | .comment | .continuedComment | .done => true
  | .assign target _ value => isLegibleName target && value.isLegible known
  | .increment target | .decrement target => isLegibleName target
  | .cond c block clauses => c.isLegible known && known.contains block && clauses.all (Clause.isLegible known)
  | .loop c block => c.isLegible known && known.contains block
  | .call name | .emit name | .mimic name => name.isLegible known
  | .tell target block => target.isLegible known && known.contains block
  | .effect _ args => Expr.areLegible known args
  | .unknown tag => !tag.toList.any isLineBreak

/-- The clauses with conditions come first, and at most one without a condition follows them. -/
def isChain : List Clause → Bool
  | [] => true
  | .elseIf _ _ :: clauses => isChain clauses
  | .otherwise _ :: clauses => clauses.isEmpty

/-- The command is no conditional with its clauses out of order. -/
def Command.isChained : Command → Bool
  | .cond _ _ clauses => isChain clauses
  | _ => true

/-- The objects that calls dispatch on are expressions, the names of the known tiles can stand in comments, and the
commands of the known blocks are legible; where it matters, the clauses of their conditionals are in order. -/
structure Scope.Legible (ordered : Bool) (known : List Nat) (s : Scope) : Prop where
  targets : ∀ t ∈ s.targets, Spelled ordered .stop t [.exp]
  tiles : ∀ p ∈ s.tiles, isLegibleTile p.1 = true
  commands : ∀ i ∈ known, ∀ cs, s.blocks[i]? = some cs → ∀ c ∈ cs, c.isLegible known = true
  chains : ordered = true → ∀ i ∈ known, ∀ cs, s.blocks[i]? = some cs → ∀ c ∈ cs, c.isChained = true

/-- A scope without objects and tiles, where only blocks without commands are known, is legible. -/
theorem Scope.legible_of_empty {ordered : Bool} {known : List Nat} {s : Scope} (htargets : s.targets = [])
    (htiles : s.tiles = []) (h : ∀ i ∈ known, s.blocks[i]? = some []) : s.Legible ordered known := by
  have none : ∀ i ∈ known, ∀ cs, s.blocks[i]? = some cs → ∀ c ∈ cs, False := by
    intro i hi cs hcs c hc
    rw [h i hi] at hcs
    cases hcs
    cases hc
  refine ⟨fun t ht => ?_, fun p hp => ?_, fun i hi cs hcs c hc => (none i hi cs hcs c hc).elim,
    fun _ i hi cs hcs c hc => (none i hi cs hcs c hc).elim⟩
  · rw [htargets] at ht
    cases ht
  · rw [htiles] at hp
    cases hp

end GameScript
