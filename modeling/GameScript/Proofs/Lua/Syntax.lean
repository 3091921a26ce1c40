import GameScript.Lua.Token

/-! The part of the output language that reaches variables by name, with the text of everything in it.
Functions are defined by the statements of a chunk only, so a function has parameters and locals of its
own, sees the locals of the chunk that come before it, and nothing in between. -/

namespace GameScript
namespace Lua

inductive Term where
  | name (x : String)
  | text (s : String)
  | number (n : Nat)
  | item (table key : Term)
  | length (table : Term)
  | concat (first second : Term)
  | equal (first second : Term)
  | call (function : Term) (args : List Term)

mutual

def Term.spelled : Term → String
  | .name x => x
  | .text s => quote s
  | .number n => toString n
  | .item table key => table.spelled ++ "[" ++ key.spelled ++ "]"
  | .length table => "#" ++ table.spelled
  | .concat first second => first.spelled ++ " .. " ++ second.spelled
  | .equal first second => first.spelled ++ " == " ++ second.spelled
  | .call function args => function.spelled ++ "(" ++ ", ".intercalate (Term.spelledAll args) ++ ")"

def Term.spelledAll : List Term → List String
  | [] => []
  | t :: ts => t.spelled :: Term.spelledAll ts

end

inductive Stat where
  | bind (x : String) (value : Term)
  | assign (target value : Term)
  | when (condition : Term) (body : Stat)
  | give (value : Term)
  /-- Counts from one. -/
  | count (x : String) (last : Term) (body : Stat)

/-- The text of a statement behind a margin, without the margin in front of it. -/
def Stat.spelled (margin : String) : Stat → String
  | .bind x value => "local " ++ x ++ " = " ++ value.spelled
  | .assign target value => target.spelled ++ " = " ++ value.spelled
  | .when condition body => "if " ++ condition.spelled ++ " then " ++ body.spelled margin ++ " end"
  | .give value => "return " ++ value.spelled
  | .count x last body => "for " ++ x ++ " = 1, " ++ last.spelled ++ " do\n" ++ margin ++ "  " ++
      body.spelled (margin ++ "  ") ++ "\n" ++ margin ++ "end"

structure Func where
  params : List String
  body : List Stat

def Func.spelledParams (f : Func) : String := "(" ++ ", ".intercalate f.params ++ ")"

inductive Item where
  | blank
  /-- A constant local that holds a list of texts. -/
  | texts (x : String) (entries : List String)
  | zero (x : String)
  | assign (target value : Term)
  /-- An entry of a table that is a function, written on one line. -/
  | entry (table key : Term) (f : Func)
  /-- A field of an object that is a function, written as a block. -/
  | method (object field : String) (f : Func)

def Item.spelled : Item → String
  | .blank => "\n"
  | .texts x [] => "local " ++ x ++ " <const> = \x7b\x7d\n"
  | .texts x (s :: ss) =>
      "local " ++ x ++ " <const> = \x7b " ++ ", ".intercalate ((s :: ss).map quote) ++ " \x7d\n"
  | .zero x => "local " ++ x ++ " = 0\n"
  | .assign target value => target.spelled ++ " = " ++ value.spelled ++ "\n"
  | .entry table key f => (table.item key).spelled ++ " = function" ++ f.spelledParams ++ " " ++
      join (f.body.map fun s => s.spelled "" ++ " ") ++ "end\n"
  | .method object field f => "function " ++ object ++ "." ++ field ++ f.spelledParams ++ "\n" ++
      join (f.body.map fun s => "  " ++ s.spelled "  " ++ "\n") ++ "end\n"

def Item.spelledAll (items : List Item) : String := join (items.map Item.spelled)

end Lua
end GameScript
