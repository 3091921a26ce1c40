import GameScript.Lua.Variable
import GameScript.Table

/-! The storage of variables. The most used ones become locals of the unit, the others live in the
variable table, and all of them can be reached by name through functions that the unit installs. -/

namespace GameScript

/-- The spelled names of the variables by their storage. -/
structure Promotion where
  /-- The locals, most used first. -/
  locals : List String
  /-- The others, in order of their first use. -/
  table : List String
deriving DecidableEq, Repr

namespace Promotion

open Lua

def greatestLocals : Nat := 160

/-- The spelled names, most used first; equally used ones keep their order. -/
def ranked (usage : Table String Nat) : List String :=
  (usage.mergeSort fun a b => b.2 ≤ a.2).map fun v => escapeReserved v.1

/-- The storage of variables with the given numbers of uses. -/
def ofUsage (usage : Table String Nat) : Promotion :=
  let locals := ((ranked usage).filter isIdentifier).take greatestLocals
  let names := usage.map fun v => escapeReserved v.1
  ⟨locals, names.filter fun name => !locals.contains name⟩

/-- One declaration for every variable, locals first. -/
def declarations (p : Promotion) : String :=
  join (p.locals.map fun name => s!"local {name} = 0\n") ++
  join (p.table.map fun name => s!"{variableTable}[{quote name}] = 0\n")

/-- The functions that read and write one local by name. -/
def localAccess (name : String) : String :=
  s!"__var_get[{quote name}] = function() return {name} end\n" ++
  s!"__var_set[{quote name}] = function(value) {name} = value end\n"

/-- The names of the variables that are not locals. -/
def fallbackTable (names : List String) : String :=
  if names.isEmpty then "local __var_fallback <const> = \x7b\x7d\n"
  else "local __var_fallback <const> = \x7b " ++ ", ".intercalate (names.map quote) ++ " \x7d\n"

/-- The functions that read, write and reset variables by name. -/
def accessors (p : Promotion) : String :=
  "\nlocal __var_get <const> = \x7b\x7d\nlocal __var_set <const> = \x7b\x7d\n" ++
  join (p.locals.map localAccess) ++
  fallbackTable p.table ++
  "\nfunction __pulp.getvariable(name)\n" ++
  "  if __sub(name, 1, 2) == \"__\" then name = \"__\" .. name end\n" ++
  "  local get = __var_get[name]\n" ++
  "  if get then return get() end\n" ++
  "  return __G[name]\n" ++
  "end\n" ++
  "\nfunction __pulp.setvariable(name, value)\n" ++
  "  if __sub(name, 1, 2) == \"__\" then name = \"__\" .. name end\n" ++
  "  local set = __var_set[name]\n" ++
  "  if set then return set(value) end\n" ++
  "  __G[name] = value\n" ++
  "end\n" ++
  "\nfunction __pulp.resetvariables()\n" ++
  join (p.locals.map fun name => s!"  {name} = 0\n") ++
  "  for i = 1, #__var_fallback do\n" ++
  "    __G[__var_fallback[i]] = 0\n" ++
  "  end\n" ++
  "end\n"

end Promotion
end GameScript
