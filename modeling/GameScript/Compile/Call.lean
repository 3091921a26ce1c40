import GameScript.Script.Opcode
import GameScript.Table

/-! Calls of the runtime's operations. Arguments that come as a group fill slots of their own, all
other arguments follow in order; a call is the slots of its operation and then these. Some operations
are a fixed text with holes for their arguments. -/

namespace GameScript

/-- Whether a call is made for its effect or for its value. -/
inductive CallKind where
  | effect
  | value
deriving DecidableEq, Repr

def CallKind.functionPrefix : CallKind → String
  | effect => "__pulp.__fn_"
  | value => "__pulp.__ex_"

/-- A leading parameter of an operation. -/
inductive Slot where
  | x | y | w | h | self | actor | event | evname | block | len | lines
deriving DecidableEq, Repr

namespace Slot

/-- What stands in a slot that no argument fills: the handler's own parameter, or nil. -/
def unfilled : Slot → String
  | self => "__self"
  | actor => "__actor"
  | event => "event"
  | evname => "__evname"
  | _ => "nil"

end Slot

/-- A compiled argument: a group with slots of its own, or a plain one. -/
inductive Argument where
  | pair (x y : String)
  | rect (parts : List String)
  | callback (text : String)
  | plain (text : String)
deriving DecidableEq, Repr

namespace Argument

/-- The parts of a rectangle that have a slot. -/
def rectSlots : List Slot := [.x, .y, .w, .h]

/-- The slots that an argument fills, and with what. -/
def fills : Argument → List (Slot × String)
  | pair x y => [(.x, x), (.y, y)]
  | rect parts => rectSlots.zip parts
  | callback text => [(.block, text)]
  | plain _ => []

def plain? : Argument → Option String
  | plain text => some text
  | _ => none

end Argument

namespace Call

/-- The slots of operations that have any. -/
def slotTable : List (String × List Slot) :=
  let position : List Slot := [.x, .y]
  let area : List Slot := [.x, .y, .w, .h]
  let callback : List Slot := [.self, .actor, .event, .evname, .block]
  [("frame", [.actor]), ("swap", [.actor]),
   ("goto", position), ("draw", position), ("solid", position), ("type", position),
   ("tell", [.event, .evname, .block]),
   ("label", [.x, .y, .len, .lines]),
   ("wait", callback), ("option", callback), ("play", callback), ("once", callback),
   ("say", area ++ callback), ("ask", area ++ callback), ("menu", area ++ callback),
   ("window", area), ("fill", area), ("crop", area)]

def slots (op : String) : List Slot := (slotTable.lookup op).getD []

/-- The text in a slot: the last argument that fills it decides. -/
def slotText (args : List Argument) (slot : Slot) : String :=
  ((args.flatMap Argument.fills).reverse.lookup slot).getD slot.unfilled

/-- The texts of a call's arguments: its slots in order, then the plain arguments in order. -/
def assembled (op : String) (args : List Argument) : List String :=
  (slots op).map (slotText args) ++ args.filterMap Argument.plain?

/-- The operations that are a fixed text; `\x7bn\x7d` is the argument at position `n`. -/
def templateTable : List ((CallKind × String) × String) := [
  ((.effect, "frame"), "\x7b0\x7d.frame = \x7b1\x7d"),
  ((.effect, "log"), "__print(\x7b0\x7d)"),
  ((.effect, "fill"),
    "__setcolour(__fillcolours[\x7b4\x7d]); __fillrect(\x7b0\x7d * __pix8scale, \x7b1\x7d * __pix8scale, \x7b2\x7d * __pix8scale, \x7b3\x7d * __pix8scale)"),
  ((.value, "frame"), "(\x7b0\x7d.frame or 0)"),
  ((.value, "invert"), "(__pulp.invert and 1 or 0)"),
  ((.value, "degrees"), "(\x7b0\x7d * 360 / __tau)"),
  ((.value, "radians"), "(\x7b0\x7d * __tau / 360)")]

/-- The value operations that are functions of the unit itself. -/
def functionTable : List ((CallKind × String) × String) := [
  ((.value, "floor"), "__floor"),
  ((.value, "ceil"), "__ceil"),
  ((.value, "round"), "__round"),
  ((.value, "sine"), "__sin"),
  ((.value, "cosine"), "__cos"),
  ((.value, "tangent"), "__tan"),
  ((.value, "random"), "__random")]

def callee (kind : CallKind) (op : String) : String :=
  (functionTable.lookup (kind, op)).getD (kind.functionPrefix ++ op)

/-- A template with its holes filled. A hole is an opening brace, digits, and a closing brace, and
stands for the argument at that position, or for nil where there is none; every other character stands
for itself, and what has been filled in is not looked at again. -/
def fill (template : List Char) (args : List String) : List Char :=
  match template with
  | [] => []
  | c :: cs =>
      let ds := cs.takeWhile Char.isDigit
      if c = '\x7b' ∧ ds ≠ [] ∧ cs[ds.length]? = some '\x7d' then
        let position := ds.foldl (fun n d => n * 10 + (d.toNat - '0'.toNat)) 0
        (args[position]?.getD "nil").toList ++ fill (cs.drop (ds.length + 1)) args
      else c :: fill cs args
termination_by template.length
decreasing_by
  · simp only [List.length_cons, List.length_drop]; omega
  · simp

def text (kind : CallKind) (op : String) (args : List Argument) : String :=
  match templateTable.lookup (kind, op) with
  | some template => String.ofList (fill template.toList (assembled op args))
  | none => callee kind op ++ "(" ++ ", ".intercalate (assembled op args) ++ ")"

end Call
end GameScript
