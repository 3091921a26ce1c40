import GameScript.Proofs.Ledger
import GameScript.Proofs.Promotion.Install

/-! Writing variables by name. A name that is given at run time is escaped there the way the compiler
escapes it, so the function of the runtime finds the storage of the variable. The setter of a local has a
parameter of its own, which hides a local of the same name. -/

namespace GameScript

open Lua Lua.Store

namespace Promotion

/-! ### Escaping at run time -/

theorem take_two_iff (v : String) :
    v.toByteArray.extract 0 2 = "__".toByteArray ↔ ∃ rest, v.toList = '_' :: '_' :: rest := by
  constructor
  · intro h
    have bytes : "__".toByteArray ++ v.toByteArray.extract 2 v.toByteArray.size = v.toByteArray := by
      have size : 2 ≤ v.toByteArray.size := by
        have := congrArg ByteArray.size h
        rw [ByteArray.size_extract, show "__".toByteArray.size = 2 from rfl] at this
        omega
      rw [← h, ← ByteArray.extract_eq_extract_append_extract 2 (by omega) size,
        ByteArray.extract_zero_size]
    have isPrefix : "__".toList <+: v.toList := by
      apply List.isPrefix_of_utf8Encode_append_eq_utf8Encode
        (v.toByteArray.extract 2 v.toByteArray.size)
      rw [String.utf8Encode_toList, String.utf8Encode_toList, bytes]
    obtain ⟨rest, hrest⟩ := isPrefix
    exact ⟨rest, hrest.symm⟩
  · rintro ⟨rest, hrest⟩
    have hv : v = "__" ++ String.ofList rest := by
      apply String.toList_injective
      simp [hrest]
    rw [hv, String.toByteArray_append]
    exact ByteArray.extract_append_eq_left rfl

section

variable {n : Nat} {scope : List String} {frame : Activation} {σ : Store} {v : String}

/-- The name that is given becomes the spelled name. -/
theorem escapeName_exec (hscope : "__sub" ∈ scope) (hpart : σ.locals "__sub" = .part)
    (hname : Table.get? frame "name" = some (.ofString v)) (hframe : "__sub" ∉ Table.keys frame) :
    escapeName.exec (callWithin n) scope frame σ =
      some (.next (Table.put frame "name" (.ofString (escapeReserved v))), σ) := by
  have hkey : "name" ∈ Table.keys frame := Table.mem_keys_of_get? hname
  have name : (Term.name "name").eval (callWithin n) scope frame σ =
      some (.ofString v, σ) := by
    simp [Term.eval, resolve, binding?, hkey, Store.read, hname]
  have taken : (Term.call (.name "__sub") [.name "name", .number 1, .number 2]).eval
      (callWithin n) scope frame σ = some (.text (v.toByteArray.extract 0 2), σ) := by
    simp only [Term.eval, Term.evalAll] at name ⊢
    simp [resolve, binding?, hframe, hscope, Store.read, hpart, hkey, hname, Value.ofString,
      callWithin_part]
  have condition : (Term.equal (.call (.name "__sub") [.name "name", .number 1, .number 2])
      (.text "__")).eval (callWithin n) scope frame σ =
        some (.bool (v.toByteArray.extract 0 2 = "__".toByteArray), σ) := by
    rw [Term.eval, taken]
    simp [Term.eval, Value.ofString]
  rcases escapeReserved_cases v with ⟨rest, hv, hescaped⟩ | ⟨hv, hescaped⟩
  · have holds := (take_two_iff v).mpr ⟨rest, hv⟩
    have doubled : "__".toByteArray ++ v.toByteArray = (escapeReserved v).toByteArray := by
      rw [← String.toByteArray_append]
      congr 1
      apply String.toList_injective
      rw [hescaped, String.toList_append, hv]
      rfl
    have assigned : (Stat.assign (.name "name") (.concat (.text "__") (.name "name"))).exec
        (callWithin n) scope frame σ =
          some (.next (Table.put frame "name" (.ofString (escapeReserved v))), σ) := by
      simp [Stat.exec, Term.storage, Term.eval, resolve, binding?, hkey, Store.read, hname, Value.ofString,
        doubled, Store.write]
    rw [escapeName, Stat.exec, condition]
    simp [holds, Value.holds, assigned, Flow.leave, Table.length_put hkey]
  · have fails : ¬ v.toByteArray.extract 0 2 = "__".toByteArray := by
      rw [take_two_iff]
      rintro ⟨rest, hrest⟩
      exact hv rest hrest
    rw [hescaped, Table.put_of_get? hname, escapeName, Stat.exec, condition]
    simp [fails, Value.holds]

end

/-! ### Writing -/

/-- The setter of a variable cannot reach its local: the parameter has the same name. -/
def Hidden (p : Promotion) (v : String) : Prop := v = "value" ∧ "value" ∈ p.locals

instance (p : Promotion) (v : String) : Decidable (p.Hidden v) := inferInstanceAs (Decidable (_ ∧ _))

/-- The store after a variable is written by name. -/
def written (p : Promotion) (v : String) (value : Value) (σ : Store) : Store :=
  if p.Hidden v then σ else (σ.write [] value (p.storage v)).2

/-- The function that writes by name, once it has looked the setter up. -/
def setFound : List Stat := [
  .when (.name "set") (.give (.call (.name "set") [.name "value"])),
  .assign (.item (.name "__G") (.name "name")) (.name "value")]

theorem escapeReserved_eq_value {v : String} : escapeReserved v = "value" ↔ v = "value" :=
  ⟨fun h => escapeReserved_injective (w := "value") h, by rintro rfl; rfl⟩

section

variable {n : Nat} {p : Promotion} {a : Addresses} {σ : Store}

theorem written_local {v : String} (hx : escapeReserved v ∈ p.locals) (value : Value) :
    p.written v value σ =
      if escapeReserved v = "value" then σ else σ.setLocal (escapeReserved v) value := by
  rw [written, storage, if_pos hx]
  by_cases hv : escapeReserved v = "value"
  · rw [if_pos ⟨escapeReserved_eq_value.mp hv, hv ▸ hx⟩, if_pos hv]
  · rw [if_neg fun hidden => hv (escapeReserved_eq_value.mpr hidden.1), if_neg hv]
    rfl

theorem written_entry {v : String} (hx : escapeReserved v ∉ p.locals) (value : Value) :
    p.written v value σ = σ.setItem globals (.ofString (escapeReserved v)) value := by
  have reached : ¬ p.Hidden v := by
    rintro ⟨rfl, hvalue⟩
    exact hx hvalue
  rw [written, if_neg reached, storage, if_neg hx]
  rfl

theorem setter_call {table : Nat} {x : String} (h : Provides σ table x (setter x) [x])
    (value : Value) : callWithin (n + 1) (σ.item table (.ofString x)) [value] σ =
      some (.nil, if x = "value" then σ else σ.setLocal x value) := by
  obtain ⟨address, scope, hitem, -, hfunction, hscope⟩ := h
  have hx : x ∈ scope := hscope List.mem_cons_self
  have target : (Term.name x).storage (callWithin n) scope [("value", value)] σ =
      some (if x = "value" then .own x else .chunk x, σ) := by
    by_cases hvalue : x = "value" <;>
      simp [Term.storage, resolve, binding?, Table.keys, hx, hvalue]
  have source : (Term.name "value").eval (callWithin n) scope [("value", value)] σ =
      some (value, σ) := by
    simp [Term.eval, resolve, binding?, Table.keys, Store.read, Table.get?]
  rw [hitem]
  by_cases hvalue : x = "value"
  · have assigned : (Stat.assign (.name x) (.name "value")).exec (callWithin n) scope
        [("value", value)] σ = some (.next [("value", value)], σ) := by
      rw [Stat.exec, target, if_pos hvalue, hvalue]
      simp [source, Store.write, Table.put]
    rw [if_pos hvalue]
    exact callWithin_next hfunction (Stat.execAll_next assigned [])
  · have assigned : (Stat.assign (.name x) (.name "value")).exec (callWithin n) scope
        [("value", value)] σ = some (.next [("value", value)], σ.setLocal x value) := by
      rw [Stat.exec, target, if_neg hvalue]
      simp [source, Store.write]
    rw [if_neg hvalue]
    exact callWithin_next hfunction (Stat.execAll_next assigned [])

variable {scope : List String} (h : Installed p a σ) (hscope : ["__sub", "__var_set", "__G"] ⊆ scope)

include h hscope

/-- The function looks the spelled name up among the setters. -/
theorem setvariable_lookup (v : String) (value : Value) :
    Stat.execAll (callWithin n) scope setvariable.body
        [("value", value), ("name", .ofString v)] σ =
      Stat.execAll (callWithin n) scope setFound
        [("set", σ.item a.writers (.ofString (escapeReserved v))), ("value", value),
          ("name", .ofString (escapeReserved v))] σ := by
  have hsub : "__sub" ∈ scope := hscope (by decide)
  have hset : "__var_set" ∈ scope := hscope (by decide)
  have hname : Table.get? [("value", value), ("name", Value.ofString v)] "name" =
      some (.ofString v) := by
    simp [Table.get?]
  have escaped := escapeName_exec (n := n) hsub h.part hname (by simp [Table.keys])
  have bound : (Stat.bind "set" (.item (.name "__var_set") (.name "name"))).exec
      (callWithin n) scope
      (Table.put [("value", value), ("name", .ofString v)] "name" (.ofString (escapeReserved v))) σ =
        some (.next [("set", σ.item a.writers (.ofString (escapeReserved v))), ("value", value),
          ("name", .ofString (escapeReserved v))], σ) := by
    simp [Table.put, Stat.exec, Term.eval, resolve, binding?, Table.keys, hset, Store.read, h.writerTable,
      Table.get?]
  rw [setvariable, Stat.execAll_next escaped, Stat.execAll_next bound, setFound]

omit hscope in
theorem setvariable_local {x : String} (hx : x ∈ p.locals) (value : Value) :
    Stat.execAll (callWithin (n + 1)) scope setFound
        [("set", σ.item a.writers (.ofString x)), ("value", value), ("name", .ofString x)] σ =
      some (.gave .nil, if x = "value" then σ else σ.setLocal x value) := by
  have writer := h.writers.provides x hx
  refine Stat.execAll_gave ?_ _
  have holds : (σ.item a.writers (.ofString x)).holds = true := by
    obtain ⟨address, -, haddress, -⟩ := writer
    rw [haddress]
    rfl
  simp [Stat.exec, Term.eval, Term.evalAll, resolve, binding?, Table.keys, Store.read, Table.get?, holds,
    setter_call writer, Flow.leave]

theorem setvariable_entry {x : String} (hx : x ∉ p.locals) (value : Value) :
    ∃ frame, Stat.execAll (callWithin n) scope setFound
        [("set", σ.item a.writers (.ofString x)), ("value", value), ("name", .ofString x)] σ =
      some (.next frame, σ.setItem globals (.ofString x) value) := by
  have hG : "__G" ∈ scope := hscope (by decide)
  refine ⟨[("set", .nil), ("value", value), ("name", .ofString x)], ?_⟩
  rw [h.writers.absent x hx]
  have skipped : (Stat.when (.name "set") (.give (.call (.name "set") [.name "value"]))).exec
      (callWithin n) scope [("set", .nil), ("value", value), ("name", .ofString x)] σ =
        some (.next [("set", .nil), ("value", value), ("name", .ofString x)], σ) := by
    simp [Stat.exec, Term.eval, resolve, binding?, Table.keys, Store.read, Table.get?, Value.holds]
  have assigned : (Stat.assign (.item (.name "__G") (.name "name")) (.name "value")).exec
      (callWithin n) scope [("set", .nil), ("value", value), ("name", .ofString x)] σ =
        some (.next [("set", .nil), ("value", value), ("name", .ofString x)],
          σ.setItem globals (.ofString x) value) := by
    simp [Stat.exec, Term.storage, Term.eval, resolve, binding?, Table.keys, Store.read, Table.get?, hG,
      h.globalTable, Store.write]
  rw [setFound, Stat.execAll_next skipped, Stat.execAll_next assigned, Stat.execAll]

omit hscope

theorem setvariable_call (v : String) (value : Value) :
    callWithin (n + 2) (σ.item a.runtime (.ofString "setvariable")) [.ofString v, value] σ =
      some (.nil, p.written v value σ) := by
  obtain ⟨address, scope, hitem, -, hfunction, hscope⟩ := h.setvariable
  rw [hitem]
  by_cases hx : escapeReserved v ∈ p.locals
  · rw [written_local hx]
    refine callWithin_gave hfunction ?_
    exact (setvariable_lookup h hscope v value).trans (setvariable_local h hx value)
  · obtain ⟨frame, hrun⟩ := setvariable_entry (n := n + 1) h hscope hx value
    rw [written_entry hx]
    exact callWithin_next hfunction ((setvariable_lookup h hscope v value).trans hrun)

end

/-- A variable holds a value, and every other variable holds what it held. -/
def Stores (p : Promotion) (v : String) (value : Value) (σ σ' : Store) : Prop :=
  σ'.read [] (p.storage v) = value ∧ ∀ w, w ≠ v → σ'.read [] (p.storage w) = σ.read [] (p.storage w)

section

variable {p : Promotion} {a : Addresses} {σ : Store}

theorem stores_write (v : String) (value : Value) :
    p.Stores v value σ (σ.write [] value (p.storage v)).2 :=
  ⟨read_write_self (p.storage_ne_own v),
    fun _ hne => read_write_of_ne fun h => hne (p.storage_injective h).symm⟩

theorem Installed.written (hp : ∀ x ∈ p.locals, isOwn x = false) (h : Installed p a σ) (v : String)
    (value : Value) : Installed p a (p.written v value σ) := by
  rw [Promotion.written]
  split_ifs
  · exact h
  · exact h.write (ofVariable_storage hp v) value

end

theorem environment_written (p : Promotion) (v : String) (value : Value) (σ : Store) :
    (p.written v value σ).environment = σ.environment := by
  rw [written]
  split_ifs
  · rfl
  · exact read_write_of_ne (p.storage_ne_environment v)

/-- No name of a unit is declared twice, so each stands for one local. -/
theorem scope_nodup {usage : Table String Nat} (h : (Table.keys usage).Nodup) :
    (preambleNames ++ (ofUsage usage).locals ++
      ["__var_get", "__var_set", "__var_fallback"]).Nodup := by
  have accessors_own : ∀ x ∈ ["__var_get", "__var_set", "__var_fallback"],
      isOwn x = true ∧ x ∉ preambleNames := by
    decide
  have not_own : ∀ x ∈ (ofUsage usage).locals, isOwn x ≠ true := fun x hx h =>
    ne_of_isOwn h (isOwn_of_mem_locals hx) rfl
  refine List.nodup_append'.mpr ⟨List.nodup_append'.mpr ⟨by decide, nodup_locals h, ?_⟩,
    by decide, ?_⟩
  · exact fun x hx hx' => not_own x hx' (isOwn_preambleNames x hx)
  · intro x hx hx'
    rcases List.mem_append.mp hx with hx | hx
    · exact (accessors_own x hx').2 hx
    · exact not_own x hx (accessors_own x hx').1

/-- Writing by name, for every set of variables that compiling can record. The statements that are run have the
text of the unit. That is the text of the printer: a name may stand in quotes, where a carriage return is left as
it is and no Lua reads it. A handler's reference to a variable denotes the variable's storage exactly if it
reaches it. Behind the statements, whatever else the game has done, writing a variable by name stores the value
there and changes no other variable, but for a local that its setter's own parameter hides: then nothing is
stored. The environment is the global table at first, and writing by name leaves it. -/
theorem setvariable_storage (log : List Entry) {library : String → Value} (hl : IsLibrary library)
    {runtime : Nat} {c : Chunk} (hc : Started library runtime [] c) :
    let p := ofUsage (Ledger.empty.recordAll log).usage
    Item.spelledAll p.declarationItems = p.declarations ∧
    Item.spelledAll p.accessorItems = p.accessors ∧
    (∀ v, (reference v).spelled = variableRef v) ∧
    (∃ c', Item.execAll c p.declarationItems = some c' ∧ Started library runtime p.locals c') ∧
    ∀ c', Started library runtime p.locals c' →
      ∃ c'' a, Item.execAll c' p.accessorItems = some c'' ∧ c''.scope.Nodup ∧
        c''.store.environment = .table globals ∧ Installed p a c''.store ∧
        ∀ σ, Installed p a σ →
          (∀ v call frame, (∀ x ∈ Table.keys frame, x ∈ Compile.boundNames) →
            ((reference v).storage call c'.scope frame σ = some (p.storage v, σ) ↔ p.Reaches σ v)) ∧
          ∀ v value levels, ∃ σ',
            callWithin (levels + 2) (σ.item a.runtime (.ofString "setvariable"))
              [.ofString v, value] σ = some (.nil, σ') ∧
            Installed p a σ' ∧ σ'.environment = σ.environment ∧
            if p.Hidden v then σ' = σ else p.Stores v value σ σ' := by
  intro p
  have hp : ∀ x ∈ p.locals, isOwn x = false := fun x hx => isOwn_of_mem_locals hx
  refine ⟨p.spelled_declarationItems, p.spelled_accessorItems, spelled_reference,
    declarationItems_exec hp hl hc, fun c' hc' => ?_⟩
  obtain ⟨c'', a, hrun, hscope, environment, installed⟩ := accessorItems_exec hl hc'
  have distinct : c''.scope.Nodup := by
    rw [hscope, hc'.scope]
    exact scope_nodup (Ledger.nodup_usage_recordAll log List.nodup_nil)
  refine ⟨c'', a, hrun, distinct, environment, installed,
    fun σ h => ⟨fun v call frame hframe => ?_, ?_⟩⟩
  · rw [hc'.scope]
    exact storage_reference _ v call frame hframe σ h.globalTable
  · intro v value levels
    refine ⟨p.written v value σ, setvariable_call h v value, h.written hp v value,
      p.environment_written v value σ, ?_⟩
    split_ifs with hidden
    · exact if_pos hidden
    · rw [written, if_neg hidden]
      exact stores_write v value

/-- A library that has nothing but what the accessors use. -/
def smallLibrary (text : String) : Value :=
  if text = "string.sub" then .part else if text = "_G" then .table globals else .nil

/-- A unit behind its preamble. -/
def smallChunk : Chunk where
  scope := preambleNames
  store := {
    locals := fun x =>
      if x = "__pulp" then .table 1
      else ((Table.get? Assembly.preambleLocals x).map smallLibrary).getD .nil
    environment := .table globals
    tables := fun _ => []
    functions := fun _ => none
    fresh := 2 }

theorem smallLibrary_isLibrary : IsLibrary smallLibrary := ⟨rfl, rfl⟩

theorem smallChunk_started : Started smallLibrary 1 [] smallChunk where
  scope := rfl
  constants := by decide
  environment := rfl
  runtimeTable := rfl
  apart := by decide
  allocated := by decide

/-- A variable that is used once is written. -/
theorem setvariable_storage_score :
    let p := ofUsage (Ledger.empty.recordAll [.use "score"]).usage
    IsLibrary smallLibrary ∧ Started smallLibrary 1 [] smallChunk ∧
    ∃ c' c'', ∃ a : Addresses, ∃ σ', Item.execAll smallChunk p.declarationItems = some c' ∧
      Item.execAll c' p.accessorItems = some c'' ∧
      callWithin 2 (c''.store.item a.runtime (.ofString "setvariable"))
        [.ofString "score", .number 7] c''.store = some (.nil, σ') ∧
      p.Stores "score" (.number 7) c''.store σ' := by
  obtain ⟨-, -, -, ⟨c', hc', started⟩, run⟩ :=
    setvariable_storage [.use "score"] smallLibrary_isLibrary smallChunk_started
  obtain ⟨c'', a, hc'', -, -, installed, written⟩ := run c' started
  obtain ⟨σ', hσ', -, -, stores⟩ := (written _ installed).2 "score" (.number 7) 0
  have hidden : ¬ (ofUsage (Ledger.empty.recordAll [.use "score"]).usage).Hidden "score" :=
    fun h => absurd h.1 (by decide)
  rw [if_neg hidden] at stores
  exact ⟨smallLibrary_isLibrary, smallChunk_started, c', c'', a, σ', hc', hc'', hσ', stores⟩

/-- A variable whose name is that of the setters' parameter is not written. -/
theorem setvariable_storage_value :
    let p := ofUsage (Ledger.empty.recordAll [.use "value"]).usage
    ∃ c' c'', ∃ a : Addresses, ∃ value, Item.execAll smallChunk p.declarationItems = some c' ∧
      Item.execAll c' p.accessorItems = some c'' ∧
      callWithin 2 (c''.store.item a.runtime (.ofString "setvariable"))
        [.ofString "value", value] c''.store = some (.nil, c''.store) ∧
      c''.store.read [] (p.storage "value") ≠ value := by
  intro p
  have hidden : p.Hidden "value" := ⟨rfl, by decide +kernel⟩
  obtain ⟨c', hc', started⟩ := declarationItems_exec (p := p) (fun x hx => isOwn_of_mem_locals hx)
    smallLibrary_isLibrary smallChunk_started
  obtain ⟨c'', a, hc'', -, -, installed⟩ := accessorItems_exec smallLibrary_isLibrary started
  -- One of two values differs from the one that is there.
  obtain ⟨value, hvalue⟩ : ∃ value, c''.store.read [] (p.storage "value") ≠ value := by
    by_cases h : c''.store.read [] (p.storage "value") = .nil
    · exact ⟨.number 7, by rw [h]; decide⟩
    · exact ⟨.nil, h⟩
  have call := setvariable_call (n := 0) installed "value" value
  rw [written, if_pos hidden] at call
  exact ⟨c', c'', a, value, hc', hc'', call, hvalue⟩

end Promotion
end GameScript
