import GameScript.Document.Basic
import GameScript.Json.Printer
import GameScript.Script.Tag

/-! Decoding a stored script. Commands are arrays of a tag and arguments, expressions are plain
values or such arrays. A tag that is not known is kept, to be reported when it is compiled; a known
tag with arguments of the wrong shape is an error. -/

namespace GameScript

/-- Why a stored script has no decoded form. The `place` is the tag of the command or expression in
question, or the event. -/
inductive DecodeError where
  | unknownType (script : Int) (type : Nat)
  | blocksNotArray (script : Int) (value : Json)
  | blockNotArray (script : Int) (index : Nat)
  | tagNotString (value : Json)
  | targetNotName (place : String) (value : Option Json)
  | comparisonNotArray (place : String) (value : Option Json)
  | unknownOperator (place : String) (code : String)
  | clauseNotArray (value : Json)
  | unknownClause (tag : Option String)
  | fewCoordinates (count : Nat)
  | fewComponents (count : Nat)
  | bodyMissing (place : String)
  | bodyNotBlock (place : String) (value : Json)
  | blockOutOfRange (place : String) (index count : Nat)
deriving Repr

namespace DecodeError

/-- What is malformed. -/
def place : DecodeError → String
  | unknownType script _ => s!"script {script}"
  | blocksNotArray script _ => s!"script {script}"
  | blockNotArray script index => s!"script {script} block {index}"
  | tagNotString _ => "command"
  | targetNotName place _ => place
  | comparisonNotArray place _ => place
  | unknownOperator place _ => place
  | clauseNotArray _ => "if"
  | unknownClause _ => "if"
  | fewCoordinates _ => "xy"
  | fewComponents _ => "rect"
  | bodyMissing place => place
  | bodyNotBlock place _ => place
  | blockOutOfRange place _ _ => place

/-- The text of an argument that may be missing. -/
def argumentText : Option Json → String
  | some v => v.text
  | none => "nothing"

/-- In which way it is malformed. -/
def detail : DecodeError → String
  | unknownType _ type => s!"unknown script type {type}"
  | blocksNotArray _ value => s!"`__blocks` is not an array: {value.text}"
  | blockNotArray _ _ => "not an array"
  | tagNotString value => s!"tag is not a string: {value.text}"
  | targetNotName _ value => s!"variable target is not a name: {argumentText value}"
  | comparisonNotArray _ value => s!"comparison is not an array: {argumentText value}"
  | unknownOperator _ code => s!"unrecognized comparison operator '{code}'"
  | clauseNotArray value => s!"follow-up is not an array: {value.text}"
  | unknownClause tag => "unrecognized block followup '" ++ tag.getD "?" ++ "'"
  | fewCoordinates count => s!"expected 2 coordinates, got {count}"
  | fewComponents count => s!"expected at least 3 components, got {count}"
  | bodyMissing _ => "body is missing"
  | bodyNotBlock _ value => s!"body is not a block: {value.text}"
  | blockOutOfRange _ index count => s!"block {index} out of range ({count} blocks)"

def message (e : DecodeError) : String := s!"malformed {e.place}: {e.detail}"

end DecodeError

namespace Decode

/-- The index in a reference `["block", n]` to one of `count` blocks. -/
def blockIndex (count : Nat) (place : String) (value : Json) : Except DecodeError Nat :=
  match value with
  | .array [.string tag, .number n] =>
      match if tag = ExprTag.block.text then n.natural? else none with
      | some index =>
          if index < count then .ok index else .error (.blockOutOfRange place index count)
      | none => .error (.bodyNotBlock place value)
  | _ => .error (.bodyNotBlock place value)

/-- The index in a block reference that may be missing. -/
def body (count : Nat) (place : String) : Option Json → Except DecodeError Nat
  | some value => blockIndex count place value
  | none => .error (.bodyMissing place)

/-- A variable name, which must be a string. -/
def targetName (place : String) : Option Json → Except DecodeError String
  | some (.string s) => .ok s
  | value => .error (.targetNotName place value)

mutual

def expr (count : Nat) : Json → Except DecodeError Expr
  | .null => .ok .nil
  | .bool b => .ok (.bool b)
  | .number n => .ok (.number n)
  | .string s => .ok (.string s)
  | .object _ => .ok (.unknown "object")
  | .array (.string tag :: args) =>
      match ExprTag.ofText? tag with
      | some .get => .read <$> targetName tag args.head?
      | some .format => .format <$> exprs count args
      | some .embed => .embed <$> argument count 0 args
      | some .xy =>
          if args.length < 2 then .error (.fewCoordinates args.length)
          else do
            let x ← argument count 0 args
            let y ← argument count 1 args
            return .pair x y
      | some .rect =>
          if args.length < 3 then .error (.fewComponents args.length)
          else .rect <$> exprs count args
      | some .block => .block <$> blockIndex count tag (.array (.string tag :: args))
      | some .name => .nameOf <$> exprs count args
      | some (.value op) => .value op <$> exprs count args
      | none => .ok (.unknown tag)
  | .array _ => .ok (.unknown "array")

def exprs (count : Nat) : List Json → Except DecodeError (List Expr)
  | [] => .ok []
  | v :: vs => do
      let e ← expr count v
      let es ← exprs count vs
      return e :: es

/-- The expression of the argument at a position; one that is missing is nil. -/
def argument (count : Nat) : Nat → List Json → Except DecodeError Expr
  | _, [] => .ok .nil
  | 0, v :: _ => expr count v
  | i + 1, _ :: vs => argument count i vs

end

def comparison (count : Nat) (place : String) (value : Option Json) :
    Except DecodeError Comparison :=
  match value with
  | some (.array items) =>
      let code := (items.head?.bind Json.string?).getD ""
      match Compare.ofName? code with
      | none => .error (.unknownOperator place code)
      | some op => do
          let left ← argument count 1 items
          let right ← argument count 2 items
          return ⟨op, left, right⟩
  | _ => .error (.comparisonNotArray place value)

def clause (count : Nat) (value : Json) : Except DecodeError Clause :=
  match value with
  | .array items =>
      let tag := items.head?.bind Json.string?
      match tag.bind ClauseTag.ofText? with
      | some .elseIf => do
          let c ← comparison count ClauseTag.elseIf.text items[1]?
          let b ← body count ClauseTag.elseIf.text items[2]?
          return .elseIf c b
      | some .otherwise => .otherwise <$> body count ClauseTag.otherwise.text items[1]?
      | none => .error (.unknownClause tag)
  | _ => .error (.clauseNotArray value)

/-- What an expression denotes as the target of a tell. -/
def tellTarget : Expr → TellTarget
  | .pair x y => .place x y
  | .read name =>
      if name = "event.room" then .room
      else if name = "event.player" then .player
      else if name = "event.game" then .game
      else .named (.read name)
  | e => .named e

/-- The command of a tag and its arguments. -/
def tagged (count : Nat) (tag : String) (args : List Json) : Except DecodeError Command :=
  match CommandTag.ofText? tag with
  | some .noop => .ok .noop
  | some .comment => .ok .comment
  | some .continuedComment => .ok .continuedComment
  | some .done => .ok .done
  | some (.assign op) => do
      let target ← targetName tag args.head?
      let value ← argument count 1 args
      return .assign target op value
  | some .increment => .increment <$> targetName tag args.head?
  | some .decrement => .decrement <$> targetName tag args.head?
  | some .cond => do
      let clauses ← (args.drop 2).mapM (clause count)
      let c ← comparison count tag args.head?
      let b ← body count tag args[1]?
      return .cond c b clauses
  | some .loop => do
      let c ← comparison count tag args.head?
      let b ← body count tag args[1]?
      return .loop c b
  | some .call => .call <$> argument count 0 args
  | some .emit => .emit <$> argument count 0 args
  | some .mimic => .mimic <$> argument count 0 args
  | some .tell => do
      let target ← argument count 0 args
      let b ← body count tag args[1]?
      return .tell (tellTarget target) b
  | some (.effect op) => .effect op <$> exprs count args
  | none => .ok (.unknown tag)

/-- The command of an entry of a block. Entries that are no arrays, or empty ones, are none. -/
def command (count : Nat) : Json → Except DecodeError (Option Command)
  | .array (.string tag :: args) => some <$> tagged count tag args
  | .array (tag :: _) => .error (.tagNotString tag)
  | _ => .ok none

def block (script : Int) (count index : Nat) : Json → Except DecodeError Block
  | .array entries => (·.filterMap id) <$> entries.mapM (command count)
  | _ => .error (.blockNotArray script index)

def blocksFrom (script : Int) (count : Nat) : Nat → List Json → Except DecodeError (List Block)
  | _, [] => .ok []
  | index, v :: vs => do
      let b ← block script count index v
      let bs ← blocksFrom script count (index + 1) vs
      return b :: bs

def blocks (script : Int) (values : List Json) : Except DecodeError (List Block) :=
  blocksFrom script values.length 0 values

/-- Keys with this prefix are not events. -/
def metaPrefix : List Char := ['_', '_']

def blocksKey : String := "__blocks"

/-- Whether a key of a script's data names an event. -/
def isEvent (key : String) : Bool := !(metaPrefix.isPrefixOf key.toList)

/-- The events of a script: the keys of its data that are no further entries, in order. -/
def events (count : Nat) (data : Table String Json) : Except DecodeError (List (String × Nat)) :=
  (data.filter fun e => isEvent e.1).mapM fun e => do
    let index ← blockIndex count s!"event `{e.1}`" e.2
    return (e.1, index)

/-- The values of a script's blocks; a script may have none. -/
def blockValues (r : ScriptRecord) : Except DecodeError (List Json) :=
  match Table.get? r.data blocksKey with
  | none => .ok []
  | some (.array values) => .ok values
  | some value => .error (.blocksNotArray r.id value)

end Decode

def Script.decode (r : ScriptRecord) : Except DecodeError Script :=
  match ScriptKind.ofCode? r.type with
  | none => .error (.unknownType r.id r.type)
  | some kind => do
      let values ← Decode.blockValues r
      let blocks ← Decode.blocks r.id values
      let events ← Decode.events values.length r.data
      return ⟨kind, r.id, events, blocks⟩

end GameScript
