import GameScript.Proofs.Lua.Trace
import GameScript.Proofs.Promotion.Reflection

/-! Reading and resetting variables by name. A name that is read at run time leads to the storage of the
variable, which is the one that handlers refer to unless `_ENV` comes between. A reset assigns the locals one by
one and then the entries whose names the unit lists, so it writes each variable of the unit once. -/

namespace GameScript

open Lua Lua.Store

/-! ### The list of names -/

theorem Lua.get?_listEntries (entries : List String) (i : Nat) :
    Table.get? (listEntries entries) (.number (i + 1)) = entries[i]?.map .ofString := by
  have numbered : ∀ (entries : List String) (k i : Nat),
      Table.get? ((entries.zipIdx k).map fun e => (Value.number (e.2 + 1), Value.ofString e.1))
        (.number (k + i + 1)) = entries[i]?.map .ofString := by
    intro entries
    induction entries with
    | nil => intro k i; rfl
    | cons s entries ih =>
      intro k i
      rw [List.zipIdx_cons, List.map_cons, Table.get?]
      cases i with
      | zero => simp
      | succ i =>
        have next := ih (k + 1) i
        rw [show k + 1 + i + 1 = k + (i + 1) + 1 by omega] at next
        rw [if_neg (by simp), next, List.getElem?_cons_succ]
  have first := numbered entries 0 i
  rw [Nat.zero_add] at first
  exact first

theorem Lua.border_listEntries (entries : List String) : border (listEntries entries) = entries.length := by
  have size : (listEntries entries).length = entries.length := by simp [listEntries]
  have there : ∀ i ∈ List.range entries.length,
      (Table.get? (listEntries entries) (.number (i + 1))).isSome = true := by
    intro i hi
    rw [get?_listEntries, List.getElem?_eq_getElem (List.mem_range.mp hi)]
    rfl
  rw [border, size, List.takeWhile_eq_self_iff.mpr there, List.length_range]

namespace Promotion

/-! ### Reading -/

/-- The function that reads by name, once it has looked the getter up. -/
def getFound : List Stat := [
  .when (.name "get") (.give (.call (.name "get") [])),
  .give (.item (.name "__G") (.name "name"))]

section

variable {n : Nat} {p : Promotion} {a : Addresses} {σ : Store}

theorem getter_call {table : Nat} {x : String} (h : Provides σ table x (getter x) [x]) :
    callWithin (n + 1) (σ.item table (.ofString x)) [] σ = some (σ.locals x, σ) := by
  obtain ⟨address, scope, hitem, -, hfunction, hscope⟩ := h
  have hx : x ∈ scope := hscope List.mem_cons_self
  rw [hitem]
  refine callWithin_gave hfunction (Stat.execAll_gave ?_ [])
  simp [Stat.exec, Term.eval, resolve, binding?, Func.activation, getter, Table.keys, hx, Store.read]

variable {scope : List String} (h : Installed p a σ) (hscope : ["__sub", "__var_get", "__G"] ⊆ scope)

include h hscope

/-- The function looks the spelled name up among the getters. -/
theorem getvariable_lookup (v : String) :
    Stat.execAll (callWithin n) scope getvariable.body [("name", .ofString v)] σ =
      Stat.execAll (callWithin n) scope getFound
        [("get", σ.item a.readers (.ofString (escapeReserved v))),
          ("name", .ofString (escapeReserved v))] σ := by
  have hsub : "__sub" ∈ scope := hscope (by decide)
  have hget : "__var_get" ∈ scope := hscope (by decide)
  have hname : Table.get? [("name", Value.ofString v)] "name" = some (.ofString v) := by
    simp [Table.get?]
  have escaped := escapeName_exec (n := n) hsub h.part hname (by simp [Table.keys])
  have bound : (Stat.bind "get" (.item (.name "__var_get") (.name "name"))).exec (callWithin n) scope
      (Table.put [("name", .ofString v)] "name" (.ofString (escapeReserved v))) σ =
        some (.next [("get", σ.item a.readers (.ofString (escapeReserved v))),
          ("name", .ofString (escapeReserved v))], σ) := by
    simp [Table.put, Stat.exec, Term.eval, resolve, binding?, Table.keys, hget, Store.read, h.readerTable,
      Table.get?]
  rw [getvariable, Stat.execAll_next escaped, Stat.execAll_next bound, getFound]

omit hscope in
theorem getvariable_local {x : String} (hx : x ∈ p.locals) :
    Stat.execAll (callWithin (n + 1)) scope getFound
        [("get", σ.item a.readers (.ofString x)), ("name", .ofString x)] σ =
      some (.gave (σ.locals x), σ) := by
  have reader := h.readers.provides x hx
  have holds : (σ.item a.readers (.ofString x)).holds = true := by
    obtain ⟨address, -, haddress, -⟩ := reader
    rw [haddress]
    rfl
  refine Stat.execAll_gave ?_ _
  simp [Stat.exec, Term.eval, Term.evalAll, resolve, binding?, Table.keys, Store.read, Table.get?, holds,
    getter_call reader, Flow.leave]

theorem getvariable_entry {x : String} (hx : x ∉ p.locals) :
    Stat.execAll (callWithin n) scope getFound
        [("get", σ.item a.readers (.ofString x)), ("name", .ofString x)] σ =
      some (.gave (σ.item globals (.ofString x)), σ) := by
  have hG : "__G" ∈ scope := hscope (by decide)
  rw [h.readers.absent x hx]
  have skipped : (Stat.when (.name "get") (.give (.call (.name "get") []))).exec (callWithin n) scope
      [("get", .nil), ("name", .ofString x)] σ =
        some (.next [("get", .nil), ("name", .ofString x)], σ) := by
    simp [Stat.exec, Term.eval, resolve, binding?, Table.keys, Store.read, Table.get?, Value.holds]
  have given : (Stat.give (.item (.name "__G") (.name "name"))).exec (callWithin n) scope
      [("get", .nil), ("name", .ofString x)] σ = some (.gave (σ.item globals (.ofString x)), σ) := by
    simp [Stat.exec, Term.eval, resolve, binding?, Table.keys, Store.read, Table.get?, hG, h.globalTable]
  rw [getFound, Stat.execAll_next skipped, Stat.execAll_gave given]

omit hscope

/-- Reading by name gives what is in the storage of the variable. -/
theorem getvariable_call (v : String) :
    callWithin (n + 2) (σ.item a.runtime (.ofString "getvariable")) [.ofString v] σ =
      some (σ.read [] (p.storage v), σ) := by
  obtain ⟨address, scope, hitem, -, hfunction, hscope⟩ := h.getvariable
  rw [hitem]
  refine callWithin_gave hfunction ((getvariable_lookup h hscope v).trans ?_)
  rw [storage]
  by_cases hx : escapeReserved v ∈ p.locals
  · rw [if_pos hx]
    exact getvariable_local h hx
  · rw [if_neg hx]
    exact getvariable_entry h hscope hx

end

/-! ### Resetting -/

def zeroLocal (x : String) : Write := (.chunk x, .number 0)

def zeroEntry (x : String) : Write := (.entry globals (.ofString x), .number 0)

/-- The writes of a reset, in order. -/
def zeros (p : Promotion) : List Write := p.locals.map zeroLocal ++ p.table.map zeroEntry

/-- The statement that a reset runs for each name of the list. -/
def resetEntry : Stat :=
  .assign (.item (.name "__G") (.item (.name "__var_fallback") (.name "i"))) (.number 0)

section

variable {p : Promotion} {a : Addresses} {σ : Store}

theorem Installed.carryOut {ws : List Write} (hws : ∀ w ∈ ws, OfVariable w.1) (h : Installed p a σ) :
    Installed p a (σ.carryOut ws) := by
  induction ws generalizing σ with
  | nil => exact h
  | cons w ws ih =>
    obtain ⟨hw, hws⟩ := List.forall_mem_cons.mp hws
    exact ih hws (h.write hw w.2)

variable {call : Caller} {scope : List String}

theorem resetLocals_traced (names : List String) (hnames : names ⊆ scope) (ss : List Stat) (σ : Store) :
    Stat.tracedAll call scope (names.map (fun x => .assign (.name x) (.number 0)) ++ ss) [] σ =
      (Stat.tracedAll call scope ss [] (σ.carryOut (names.map zeroLocal))).map fun t =>
        (names.map zeroLocal ++ t.1, t.2) := by
  induction names generalizing σ with
  | nil => simp [Store.carryOut]
  | cons x names ih =>
    obtain ⟨hx, hnames⟩ := List.cons_subset.mp hnames
    have assigned : (Stat.assign (.name x) (.number 0)).traced call scope [] σ =
        some ([zeroLocal x], .next [], σ.setLocal x (.number 0)) := by
      simp [Stat.traced, Term.storage, Term.eval, resolve, binding?, Table.keys, hx, Store.write, zeroLocal]
    rw [List.map_cons, List.cons_append, Stat.tracedAll_next assigned, ih hnames]
    simp [carryOut_cons, zeroLocal, Store.write, Function.comp_def]

/-- One round of the loop. -/
def resetRound (call : Caller) (scope : List String) (i : Nat) (frame : Activation) (σ : Store) :
    Option Traced := do
  let (ws, flow, σ) ← resetEntry.traced call scope (("i", .number i) :: frame) σ
  return (ws, flow.leave frame.length, σ)

theorem resetRound_eq (h : Installed p a σ) (hscope : ["__var_fallback", "__G"] ⊆ scope)
    {done rest : List String} {x : String} (hp : p.table = done ++ x :: rest) :
    resetRound call scope (done.length + 1) [] σ =
      some ([zeroEntry x], .next [], σ.setItem globals (.ofString x) (.number 0)) := by
  have hfallback : "__var_fallback" ∈ scope := hscope (by decide)
  have hG : "__G" ∈ scope := hscope (by decide)
  have name : σ.item a.names (.number (done.length + 1)) = .ofString x := by
    rw [Store.item, h.names, get?_listEntries, hp]
    simp
  have assigned : resetEntry.traced call scope [("i", .number (done.length + 1))] σ =
      some ([zeroEntry x], .next [("i", .number (done.length + 1))],
        σ.setItem globals (.ofString x) (.number 0)) := by
    simp [resetEntry, Stat.traced, Term.storage, Term.eval, resolve, binding?, Table.keys, hfallback, hG,
      Store.read, h.globalTable, h.nameTable, Table.get?, name, Store.write, zeroEntry]
  rw [resetRound, assigned]
  rfl

/-- The loop writes the entries whose names are left. -/
theorem resetEntries_traced (hscope : ["__var_fallback", "__G"] ⊆ scope) {done rest : List String}
    (hp : p.table = done ++ rest) (h : Installed p a σ) :
    repeatedTraced (resetRound call scope) rest.length (done.length + 1) [] σ =
      some (rest.map zeroEntry, .next [], σ.carryOut (rest.map zeroEntry)) := by
  induction rest generalizing done σ with
  | nil => rfl
  | cons x rest ih =>
    have installed : Installed p a (σ.setItem globals (.ofString x) (.number 0)) :=
      h.write (s := .entry globals (.ofString x)) rfl (.number 0)
    have next := ih (by simpa using hp : p.table = (done ++ [x]) ++ rest) installed
    rw [List.length_append, List.length_singleton] at next
    rw [List.length_cons, repeatedTraced, resetRound_eq h hscope hp]
    simp [Traced.andThen, next, carryOut_cons, zeroEntry, Store.write]

/-- A reset writes what it is to write, whatever calls would do. -/
theorem resetvariables_traced (hp : ∀ x ∈ p.locals, isOwn x = false) (h : Installed p a σ)
    (hscope : ["__var_fallback", "__G"] ++ p.locals ⊆ scope) :
    Stat.tracedAll call scope p.resetvariables.body [] σ =
      some (p.zeros, .next [], σ.carryOut p.zeros) := by
  obtain ⟨hnames, hlocals⟩ := List.append_subset.mp hscope
  have installed : Installed p a (σ.carryOut (p.locals.map zeroLocal)) := by
    refine h.carryOut fun w hw => ?_
    obtain ⟨x, hx, rfl⟩ := List.mem_map.mp hw
    exact hp x hx
  have last : (Term.length (.name "__var_fallback")).eval call scope []
      (σ.carryOut (p.locals.map zeroLocal)) =
        some (.number p.table.length, σ.carryOut (p.locals.map zeroLocal)) := by
    have hfallback : "__var_fallback" ∈ scope := hnames (by decide)
    simp [Term.eval, resolve, binding?, Table.keys, hfallback, Store.read, installed.nameTable, installed.names,
      border_listEntries]
  have loop : (Stat.count "i" (.length (.name "__var_fallback")) resetEntry).traced call scope []
      (σ.carryOut (p.locals.map zeroLocal)) =
        some (p.table.map zeroEntry, .next [], σ.carryOut p.zeros) := by
    rw [Stat.traced, last, zeros, carryOut_append]
    exact resetEntries_traced hnames (List.nil_append _).symm installed
  have body : p.resetvariables.body = p.locals.map (fun x => .assign (.name x) (.number 0)) ++
      [.count "i" (.length (.name "__var_fallback")) resetEntry] := rfl
  rw [body, resetLocals_traced _ hlocals, Stat.tracedAll_next loop]
  simp [Stat.tracedAll, zeros]

end

/-- A reset writes zero to the storage of each of some variables once, and to no other storage. -/
structure Resets (p : Promotion) (vs : List String) (ws : List Write) (σ σ' : Store) : Prop where
  each : ws.Perm (vs.map fun v => (p.storage v, .number 0))
  once : (ws.map Prod.fst).Nodup
  zero : ∀ v ∈ vs, σ'.read [] (p.storage v) = .number 0
  others : ∀ s, (∀ v ∈ vs, s ≠ p.storage v) → σ'.read [] s = σ.read [] s

theorem Resets.environment {p : Promotion} {vs : List String} {ws : List Write} {σ σ' : Store}
    (h : p.Resets vs ws σ σ') : σ'.environment = σ.environment :=
  h.others .environment fun v _ => (p.storage_ne_environment v).symm

theorem zeros_perm {usage : Table String Nat} (h : (Table.keys usage).Nodup) :
    (ofUsage usage).zeros.Perm
      ((Table.keys usage).map fun v => ((ofUsage usage).storage v, .number 0)) := by
  refine (map_append_map_perm h zeroLocal zeroEntry).trans (List.Perm.of_eq ?_)
  refine List.map_congr_left fun v _ => ?_
  rw [storage]
  split_ifs <;> rfl

/-- It is enough that the writes are the right ones, since they are all that happens to the store. -/
theorem Resets.of_writes {p : Promotion} {vs : List String} (hvs : vs.Nodup) {f v : Value}
    {args : List Value} {ws : List Write} {σ σ' : Store} (h : tracedCall f args σ = some (ws, v, σ'))
    (each : ws.Perm (vs.map fun v => (p.storage v, .number 0))) : p.Resets vs ws σ σ' := by
  obtain rfl := tracedCall_writes h
  have storages := each.map Prod.fst
  rw [List.map_map] at storages
  have once : (ws.map Prod.fst).Nodup :=
    storages.nodup_iff.mpr (hvs.map fun _ _ => storage_injective _)
  refine ⟨each, once, fun v hv => ?_, fun s hs => read_carryOut_of_not_mem fun hmem => ?_⟩
  · refine read_carryOut_of_mem once (each.mem_iff.mpr ?_) (p.storage_ne_own v)
    exact List.mem_map_of_mem hv
  · obtain ⟨v, hv, rfl⟩ := List.mem_map.mp (storages.mem_iff.mp hmem)
    exact hs v hv rfl

/-- The function of the runtime writes what a reset is to write; it calls nothing, so it does so with any
number of levels of calls. -/
theorem resetvariables_call {p : Promotion} {a : Addresses} {σ : Store}
    (hp : ∀ x ∈ p.locals, isOwn x = false) (h : Installed p a σ) :
    tracedCall (σ.item a.runtime (.ofString "resetvariables")) [] σ =
        some (p.zeros, .nil, σ.carryOut p.zeros) ∧
      ∀ levels, callWithin (levels + 1) (σ.item a.runtime (.ofString "resetvariables")) [] σ =
        some (.nil, σ.carryOut p.zeros) := by
  obtain ⟨address, scope, hitem, -, hfunction, hscope⟩ := h.resetvariables
  rw [hitem]
  constructor
  · have traced : Stat.tracedAll (callWithin 0) scope p.resetvariables.body [] σ =
        some (p.zeros, .next [], σ.carryOut p.zeros) := resetvariables_traced hp h hscope
    rw [tracedCall, hfunction]
    simp only [Option.bind_eq_bind, Option.bind_some]
    rw [show p.resetvariables.activation [] = [] from rfl, traced]
    rfl
  · intro levels
    have run : Stat.execAll (callWithin levels) scope p.resetvariables.body [] σ =
        some (.next [], σ.carryOut p.zeros) := by
      rw [← Stat.tracedAll_run, resetvariables_traced hp h hscope]
      rfl
    exact callWithin_next hfunction run

/-- A reset writes each variable that there is, and variables can still be reached by name. -/
theorem resetvariables_resets {usage : Table String Nat} (distinct : (Table.keys usage).Nodup)
    {a : Addresses} {σ : Store} (h : Installed (ofUsage usage) a σ) :
    ∃ ws σ', tracedCall (σ.item a.runtime (.ofString "resetvariables")) [] σ = some (ws, .nil, σ') ∧
      (∀ levels, callWithin (levels + 1) (σ.item a.runtime (.ofString "resetvariables")) [] σ =
        some (.nil, σ')) ∧
      Installed (ofUsage usage) a σ' ∧ σ'.environment = σ.environment ∧
      (ofUsage usage).Resets (Table.keys usage) ws σ σ' := by
  have hp : ∀ x ∈ (ofUsage usage).locals, isOwn x = false := fun x hx => isOwn_of_mem_locals hx
  obtain ⟨traced, call⟩ := resetvariables_call hp h
  have resets := Resets.of_writes distinct traced (zeros_perm distinct)
  refine ⟨_, _, traced, call, h.carryOut fun w hw => ?_, resets.environment, resets⟩
  obtain ⟨v, -, rfl⟩ := List.mem_map.mp (resets.each.mem_iff.mp hw)
  exact ofVariable_storage hp v

/-! ### More names than locals -/

def numbered (i : Nat) : String := "v" ++ toString i

theorem numbered_injective {i j : Nat} (h : numbered i = numbered j) : i = j :=
  Nat.repr_injective (String.append_right_inj _ |>.mp h)

theorem toList_numbered (i : Nat) : (numbered i).toList = 'v' :: Nat.toDigits 10 i := by
  simp [numbered]

theorem escapeReserved_numbered (i : Nat) : escapeReserved (numbered i) = numbered i := by
  rcases escapeReserved_cases (numbered i) with ⟨rest, h, -⟩ | ⟨-, h⟩
  · rw [toList_numbered] at h
    cases h
  · exact h

theorem isIdentifier_numbered (i : Nat) : isIdentifier (numbered i) = true := by
  have digits : ∀ c ∈ Nat.toDigits 10 i, c.isDigit = true := fun c hc =>
    Nat.isDigit_of_mem_toDigits (by decide) (by decide) hc
  have other : ∀ c, c.isDigit = false → c ≠ 'v' → c ∉ (numbered i).toList := by
    intro c hc hv h
    rw [toList_numbered, List.mem_cons] at h
    rw [digits c (h.resolve_left hv)] at hc
    cases hc
  have token : isToken (numbered i) = true := by
    have space := other ' ' (by decide) (by decide)
    have hyphen := other '-' (by decide) (by decide)
    rw [toList_numbered] at space hyphen
    simp only [isToken, toList_numbered, List.contains_eq_mem, space, hyphen]
    rfl
  have chars : (numbered i).toList.all isIdentifierChar = true := by
    rw [toList_numbered, List.all_cons, List.all_eq_true.mpr fun c hc => ?_]
    · rfl
    · simp [isIdentifierChar, Char.isAlphanum, digits c hc]
  have plain : numbered i ∉ reservedWords := by
    have initials : ∀ w ∈ reservedWords, w.toList.head? ≠ some 'v' := by decide
    exact fun h => initials _ h (by rw [toList_numbered, List.head?_cons])
  simp [isIdentifier, token, chars, plain]

/-- One name more than there are locals, a text that is no name, and the name of the environment. -/
def manyNames : List String :=
  (List.range (greatestLocals + 1)).map numbered ++ ["my var", environmentName]

theorem numbered_mem_manyNames {i : Nat} (h : i < greatestLocals + 1) : numbered i ∈ manyNames :=
  List.mem_append_left _ (List.mem_map_of_mem (List.mem_range.mpr h))

theorem nodup_manyNames : manyNames.Nodup := by
  refine List.nodup_append'.mpr ⟨List.nodup_range.map fun _ _ => numbered_injective, by decide, ?_⟩
  rintro x hx hx'
  obtain ⟨i, -, rfl⟩ := List.mem_map.mp hx
  have head : ∀ x ∈ ["my var", environmentName], x.toList.head? ≠ some 'v' := by decide
  exact head _ hx' (by rw [toList_numbered, List.head?_cons])

/-- Each of these names is used once. -/
abbrev manyUsage : Table String Nat := (Ledger.empty.recordAll (manyNames.map .use)).usage

theorem manyUsage_eq : manyUsage = manyNames.map fun v => (v, 1) :=
  Ledger.usage_recordAll_once nodup_manyNames

theorem keys_manyUsage : Table.keys manyUsage = manyNames := by
  rw [manyUsage_eq, Table.keys, List.map_map]
  exact List.map_id manyNames

theorem locals_manyUsage :
    (ofUsage manyUsage).locals = (List.range greatestLocals).map numbered := by
  have spelled : manyNames.map escapeReserved = manyNames := by
    have names : ((List.range (greatestLocals + 1)).map numbered).map escapeReserved =
        (List.range (greatestLocals + 1)).map numbered := by
      rw [List.map_map]
      exact List.map_congr_left fun i _ => escapeReserved_numbered i
    rw [manyNames, List.map_append, names]
    rfl
  have identifiers : manyNames.filter isIdentifier =
      (List.range (greatestLocals + 1)).map numbered ++ [environmentName] := by
    rw [manyNames, List.filter_append, List.filter_eq_self.mpr fun x hx => ?_]
    · rfl
    · obtain ⟨i, -, rfl⟩ := List.mem_map.mp hx
      exact isIdentifier_numbered i
  rw [manyUsage_eq, locals_once, spelled, identifiers,
    List.take_append_of_le_length (by simp), ← List.map_take, List.take_range]
  rfl

theorem storage_numbered (i : Nat) :
    (ofUsage manyUsage).storage (numbered i) =
      if i < greatestLocals then .chunk (numbered i)
      else .entry globals (.ofString (numbered i)) := by
  have local_iff : numbered i ∈ (List.range greatestLocals).map numbered ↔ i < greatestLocals := by
    rw [List.mem_map_of_injective fun _ _ => numbered_injective, List.mem_range]
  simp only [storage, escapeReserved_numbered, locals_manyUsage, local_iff]

theorem environmentName_not_mem_locals : environmentName ∉ (ofUsage manyUsage).locals := by
  rw [locals_manyUsage]
  intro h
  obtain ⟨i, -, hi⟩ := List.mem_map.mp h
  have head := congrArg (fun x => x.toList.head?) hi
  simp [toList_numbered, environmentName] at head

/-- Reading and resetting by name, for every set of variables that compiling can record. The statements that are
run have the text of the unit. That is the text of the printer: a name may stand in quotes, where a carriage
return is left as it is and no Lua reads it. A handler's reference to a variable denotes the variable's storage
exactly if it reaches it; all are reached if no identifier is past the locals, or if none is `_ENV` and that is
still the global table. Behind the statements, whatever else the game has done, reading a variable by name gives
what is in that storage, and a reset writes zero to the storage of every variable once and to no other. The
environment is the global table at first, and neither of them writes it. -/
theorem reflection_storage (log : List Entry) {library : String → Value} (hl : IsLibrary library)
    {runtime : Nat} {c : Chunk} (hc : Started library runtime [] c) :
    let usage := (Ledger.empty.recordAll log).usage
    let p := ofUsage usage
    Item.spelledAll p.declarationItems = p.declarations ∧
    Item.spelledAll p.accessorItems = p.accessors ∧
    (∀ v, (reference v).spelled = variableRef v) ∧
    (∀ σ : Store, ((Table.keys usage).filter fun v => isIdentifier (escapeReserved v)).length ≤
          greatestLocals ∨ environmentName ∉ Table.keys usage ∧ σ.environment = .table globals →
        ∀ v ∈ Table.keys usage, p.Reaches σ v) ∧
    (∃ c', Item.execAll c p.declarationItems = some c' ∧ Started library runtime p.locals c') ∧
    ∀ c', Started library runtime p.locals c' →
      ∃ c'' a, Item.execAll c' p.accessorItems = some c'' ∧ c''.scope.Nodup ∧
        c''.store.environment = .table globals ∧ Installed p a c''.store ∧
        ∀ σ, Installed p a σ →
          (∀ v call frame, (∀ x ∈ Table.keys frame, x ∈ Compile.boundNames) →
            ((reference v).storage call c'.scope frame σ = some (p.storage v, σ) ↔ p.Reaches σ v)) ∧
          (∀ v levels, callWithin (levels + 2) (σ.item a.runtime (.ofString "getvariable"))
            [.ofString v] σ = some (σ.read [] (p.storage v), σ)) ∧
          ∃ ws σ', tracedCall (σ.item a.runtime (.ofString "resetvariables")) [] σ =
              some (ws, .nil, σ') ∧
            (∀ levels, callWithin (levels + 1) (σ.item a.runtime (.ofString "resetvariables")) [] σ =
              some (.nil, σ')) ∧
            Installed p a σ' ∧ σ'.environment = σ.environment ∧
            p.Resets (Table.keys usage) ws σ σ' := by
  intro usage p
  have hp : ∀ x ∈ p.locals, isOwn x = false := fun x hx => isOwn_of_mem_locals hx
  have distinct : (Table.keys usage).Nodup := Ledger.nodup_usage_recordAll log List.nodup_nil
  refine ⟨p.spelled_declarationItems, p.spelled_accessorItems, spelled_reference,
    fun _ h _ hv => reaches_of_few_or_absent hv h, declarationItems_exec hp hl hc, fun c' hc' => ?_⟩
  obtain ⟨c'', a, hrun, hscope, environment, installed⟩ := accessorItems_exec hl hc'
  refine ⟨c'', a, hrun, ?_, environment, installed, fun σ h => ⟨fun v call frame hframe => ?_,
    fun v levels => getvariable_call h v, resetvariables_resets distinct h⟩⟩
  · rw [hscope, hc'.scope]
    exact scope_nodup distinct
  · rw [hc'.scope]
    exact storage_reference _ v call frame hframe σ h.globalTable

/-- A variable that is a local, one past the locals and one that is no name are reset and read, and handlers
refer to them. -/
theorem reflection_storage_entry :
    let p := ofUsage (Ledger.empty.recordAll (manyNames.map .use)).usage
    IsLibrary smallLibrary ∧ Started smallLibrary 1 [] smallChunk ∧
    ∃ c' c'', ∃ a : Addresses, ∃ ws σ', Item.execAll smallChunk p.declarationItems = some c' ∧
      Item.execAll c' p.accessorItems = some c'' ∧
      tracedCall (c''.store.item a.runtime (.ofString "resetvariables")) [] c''.store =
        some (ws, .nil, σ') ∧
      ∀ e ∈ [("v0", .chunk "v0"), ("v160", .entry globals (.ofString "v160")),
          ("my var", .entry globals (.ofString "my var"))],
        (e.2, .number 0) ∈ ws ∧
        callWithin 2 (σ'.item a.runtime (.ofString "getvariable")) [.ofString e.1] σ' =
          some (.number 0, σ') ∧
        (reference e.1).storage (callWithin 0) c'.scope [] σ' = some (e.2, σ') := by
  intro p
  obtain ⟨-, -, -, -, ⟨c', hc', started⟩, run⟩ :=
    reflection_storage (manyNames.map .use) smallLibrary_isLibrary smallChunk_started
  obtain ⟨c'', a, hc'', -, environment, installed, reflects⟩ := run c' started
  obtain ⟨-, -, ws, σ', traced, -, installed', kept, resets⟩ := reflects _ installed
  have each : ∀ v s, v ∈ manyNames → p.storage v = s → p.Reaches σ' v →
      (s, .number 0) ∈ ws ∧
      callWithin 2 (σ'.item a.runtime (.ofString "getvariable")) [.ofString v] σ' =
        some (.number 0, σ') ∧
      (reference v).storage (callWithin 0) c'.scope [] σ' = some (s, σ') := by
    rintro v s hv rfl reached
    have used : v ∈ Table.keys manyUsage := by
      rwa [keys_manyUsage]
    have get := (reflects σ' installed').2.1 v 0
    rw [resets.zero v used] at get
    have refers := (reflects σ' installed').1 v (callWithin 0) [] fun _ hx => absurd hx List.not_mem_nil
    exact ⟨resets.each.mem_iff.mpr (List.mem_map_of_mem used), get, refers.mpr reached⟩
  have first : "v0" ∈ p.locals := by
    rw [locals_manyUsage]
    exact List.mem_map_of_mem (List.mem_range.mpr (by decide : 0 < greatestLocals))
  have seen : p.environment σ' = .table globals := by
    rw [Promotion.environment, if_neg environmentName_not_mem_locals, kept, environment]
  have plain : isIdentifier (escapeReserved "my var") = false := by decide
  have other : escapeReserved "my var" ∉ p.locals := fun h =>
    absurd (isIdentifier_of_mem_locals h) (by rw [plain]; decide)
  refine ⟨smallLibrary_isLibrary, smallChunk_started, c', c'', a, ws, σ', hc', hc'', traced, ?_⟩
  simp only [List.forall_mem_cons, List.not_mem_nil, false_implies, implies_true, and_true]
  exact ⟨each _ _ (numbered_mem_manyNames (i := 0) (by decide)) (storage_numbered 0) (.inl first),
    each _ _ (numbered_mem_manyNames (i := 160) (by decide)) (storage_numbered 160)
      (.inr (.inr ⟨by decide, seen⟩)),
    each _ _ (List.mem_append_right _ (by decide)) (if_neg other) (.inr (.inl plain))⟩

/-- Of the same variables, the one that is called like the environment is past the locals, so handlers use the
environment for it: after a reset it is read as zero by name, and a handler still finds the global table. -/
theorem reflection_storage_environment :
    let p := ofUsage (Ledger.empty.recordAll (manyNames.map .use)).usage
    ∃ c' c'', ∃ a : Addresses, ∃ σ', Item.execAll smallChunk p.declarationItems = some c' ∧
      Item.execAll c' p.accessorItems = some c'' ∧
      callWithin 1 (c''.store.item a.runtime (.ofString "resetvariables")) [] c''.store = some (.nil, σ') ∧
      callWithin 2 (σ'.item a.runtime (.ofString "getvariable")) [.ofString environmentName] σ' =
        some (.number 0, σ') ∧
      (reference environmentName).eval (callWithin 0) c'.scope [] σ' = some (.table globals, σ') := by
  intro p
  have hp : ∀ x ∈ p.locals, isOwn x = false := fun x hx => isOwn_of_mem_locals hx
  obtain ⟨c', hc', started⟩ := declarationItems_exec hp smallLibrary_isLibrary smallChunk_started
  obtain ⟨c'', a, hc'', -, environment, installed⟩ := accessorItems_exec smallLibrary_isLibrary started
  have distinct : (Table.keys manyUsage).Nodup :=
    Ledger.nodup_usage_recordAll _ List.nodup_nil
  obtain ⟨_, σ', -, reset, installed', kept, resets⟩ := resetvariables_resets distinct installed
  have used : environmentName ∈ Table.keys manyUsage := by
    rw [keys_manyUsage]
    exact List.mem_append_right _ (by decide)
  have get := getvariable_call (n := 0) installed' environmentName
  rw [resets.zero _ used] at get
  have free : environmentName ∉ c'.scope := by
    rw [started.scope, List.mem_append, not_or]
    exact ⟨by decide, environmentName_not_mem_locals⟩
  have refers : (reference environmentName).eval (callWithin 0) c'.scope [] σ' =
      some (σ'.environment, σ') := by
    rw [show reference environmentName = .name environmentName from rfl, Term.eval,
      resolve_environment σ' List.not_mem_nil free]
    rfl
  rw [kept, environment] at refers
  exact ⟨c', c'', a, σ', hc', hc'', reset 0, get, refers⟩

end Promotion
end GameScript
