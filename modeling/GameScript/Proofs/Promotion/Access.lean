import GameScript.Promotion
import GameScript.Proofs.Lua.Semantics
import GameScript.Proofs.Lua.Token

/-! The statements that declare the variables and give access to them by name, with their text. -/

namespace GameScript

open Lua

theorem Lua.Item.spelledAll_cons (i : Item) (items : List Item) :
    Item.spelledAll (i :: items) = i.spelled ++ Item.spelledAll items := rfl

theorem Lua.Item.spelledAll_append (items items' : List Item) :
    Item.spelledAll (items ++ items') = Item.spelledAll items ++ Item.spelledAll items' := by
  rw [Item.spelledAll, List.map_append, join_append]
  rfl

theorem Lua.toString_self (s : String) : toString s = s := rfl

namespace Promotion

def getter (x : String) : Func := ⟨[], [.give (.name x)]⟩

def setter (x : String) : Func := ⟨["value"], [.assign (.name x) (.name "value")]⟩

/-- Doubles the reserved prefix of a name. -/
def escapeName : Stat :=
  .when (.equal (.call (.name "__sub") [.name "name", .number 1, .number 2]) (.text "__"))
    (.assign (.name "name") (.concat (.text "__") (.name "name")))

def getvariable : Func where
  params := ["name"]
  body := [
    escapeName,
    .bind "get" (.item (.name "__var_get") (.name "name")),
    .when (.name "get") (.give (.call (.name "get") [])),
    .give (.item (.name "__G") (.name "name"))]

def setvariable : Func where
  params := ["name", "value"]
  body := [
    escapeName,
    .bind "set" (.item (.name "__var_set") (.name "name")),
    .when (.name "set") (.give (.call (.name "set") [.name "value"])),
    .assign (.item (.name "__G") (.name "name")) (.name "value")]

def resetvariables (p : Promotion) : Func where
  params := []
  body := p.locals.map (fun x => .assign (.name x) (.number 0)) ++
    [.count "i" (.length (.name "__var_fallback"))
      (.assign (.item (.name "__G") (.item (.name "__var_fallback") (.name "i"))) (.number 0))]

def declarationItems (p : Promotion) : List Item :=
  p.locals.map .zero ++ p.table.map fun x => .assign (.item (.name variableTable) (.text x)) (.number 0)

def localItems (x : String) : List Item :=
  [.entry (.name "__var_get") (.text x) (getter x), .entry (.name "__var_set") (.text x) (setter x)]

def methodItems (field : String) (f : Func) : List Item := [.blank, .method "__pulp" field f]

def accessorItems (p : Promotion) : List Item :=
  [.blank, .texts "__var_get" [], .texts "__var_set" []] ++ p.locals.flatMap localItems ++
    [.texts "__var_fallback" p.table] ++ methodItems "getvariable" getvariable ++
    methodItems "setvariable" setvariable ++ methodItems "resetvariables" p.resetvariables

theorem spelled_localItems (x : String) : Item.spelledAll (localItems x) = localAccess x := by
  apply String.toList_injective
  simp [Item.spelledAll, localItems, Item.spelled, Term.spelled, getter, setter, Func.spelledParams,
    Stat.spelled, localAccess, join, toString_self]

theorem spelled_flatMap_localItems (locals : List String) :
    Item.spelledAll (locals.flatMap localItems) = join (locals.map localAccess) := by
  induction locals with
  | nil => rfl
  | cons x locals ih =>
    rw [List.flatMap_cons, Item.spelledAll_append, spelled_localItems, ih, List.map_cons, join_cons]

theorem spelled_texts (names : List String) :
    Item.spelledAll [.texts "__var_fallback" names] = fallbackTable names := by
  cases names with
  | nil => rfl
  | cons name names =>
    apply String.toList_injective
    simp [Item.spelledAll, Item.spelled, fallbackTable, join]

theorem spelled_getvariable : Item.spelledAll (methodItems "getvariable" getvariable) =
    "\nfunction __pulp.getvariable(name)\n" ++
      "  if __sub(name, 1, 2) == \"__\" then name = \"__\" .. name end\n" ++
      "  local get = __var_get[name]\n" ++
      "  if get then return get() end\n" ++
      "  return __G[name]\n" ++
      "end\n" := by
  decide +kernel

theorem spelled_setvariable : Item.spelledAll (methodItems "setvariable" setvariable) =
    "\nfunction __pulp.setvariable(name, value)\n" ++
      "  if __sub(name, 1, 2) == \"__\" then name = \"__\" .. name end\n" ++
      "  local set = __var_set[name]\n" ++
      "  if set then return set(value) end\n" ++
      "  __G[name] = value\n" ++
      "end\n" := by
  decide +kernel

theorem spelled_resetvariables (p : Promotion) :
    Item.spelledAll (methodItems "resetvariables" p.resetvariables) =
      "\nfunction __pulp.resetvariables()\n" ++
        join (p.locals.map fun name => s!"  {name} = 0\n") ++
        "  for i = 1, #__var_fallback do\n" ++
        "    __G[__var_fallback[i]] = 0\n" ++
        "  end\n" ++
        "end\n" := by
  have zeros : join ((p.locals.map fun x => Stat.assign (.name x) (.number 0)).map fun s =>
      "  " ++ s.spelled "  " ++ "\n") = join (p.locals.map fun name => s!"  {name} = 0\n") := by
    rw [List.map_map]
    refine congrArg join (List.map_congr_left fun x _ => ?_)
    apply String.toList_injective
    simp [Stat.spelled, Term.spelled, toString_self]
  rw [methodItems, Item.spelledAll_cons, Item.spelledAll_cons, Item.spelled, Item.spelled,
    resetvariables, List.map_append, join_append, zeros]
  generalize join (p.locals.map fun name => s!"  {name} = 0\n") = zeros
  apply String.toList_injective
  simp [Item.spelledAll, Stat.spelled, Term.spelled, Func.spelledParams, join]

theorem spelled_accessorItems (p : Promotion) : Item.spelledAll p.accessorItems = p.accessors := by
  have tables : Item.spelledAll [.blank, .texts "__var_get" [], .texts "__var_set" []] =
      "\nlocal __var_get <const> = \x7b\x7d\nlocal __var_set <const> = \x7b\x7d\n" := by
    decide +kernel
  unfold accessorItems accessors
  simp only [Item.spelledAll_append, tables, spelled_flatMap_localItems, spelled_texts,
    spelled_getvariable, spelled_setvariable, spelled_resetvariables, String.append_assoc]

theorem spelled_declarationItems (p : Promotion) :
    Item.spelledAll p.declarationItems = p.declarations := by
  have zeros : Item.spelledAll (p.locals.map .zero) =
      join (p.locals.map fun name => s!"local {name} = 0\n") := by
    rw [Item.spelledAll, List.map_map]
    exact congrArg join (List.map_congr_left fun _ _ => rfl)
  have entries : Item.spelledAll (p.table.map fun x =>
      .assign (.item (.name variableTable) (.text x)) (.number 0)) =
        join (p.table.map fun name => s!"{variableTable}[{quote name}] = 0\n") := by
    rw [Item.spelledAll, List.map_map]
    refine congrArg join (List.map_congr_left fun x _ => ?_)
    apply String.toList_injective
    simp [Item.spelled, Term.spelled, toString_self]
  rw [declarationItems, Item.spelledAll_append, zeros, entries, declarations]

end Promotion
end GameScript
