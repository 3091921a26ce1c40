import GameScript.Proofs.Lua.Syntax
import GameScript.Proofs.Table
import Mathlib

/-! What the statements of a chunk do. A name in a function is one of the function's own if there is one of
that name, so it hides a local of the chunk. A name that is bound nowhere is a field of `_ENV`, which a chunk is
given from outside and which it can hide by a local as it can hide any other name. Tables have no metatables, and
texts are bytes. A call runs with a number of levels of calls in one another; without a value there is no
result. -/

namespace GameScript
namespace Lua

/-- A value. Tables and functions are told apart by their addresses. -/
inductive Value where
  | nil
  | bool (b : Bool)
  | number (n : Nat)
  | text (bytes : ByteArray)
  | table (address : Nat)
  | function (address : Nat)
  /-- The library's function that takes a part of a text. -/
  | part
  | other (n : Nat)
deriving DecidableEq

namespace Value

def ofString (s : String) : Value := .text s.toByteArray

theorem ofString_injective {s t : String} (h : ofString s = ofString t) : s = t :=
  String.toByteArray_inj.mp (Value.text.inj h)

def holds : Value → Bool
  | nil | bool false => false
  | _ => true

end Value

/-- A function together with the locals of the chunk that it sees. -/
structure Closure where
  scope : List String
  code : Func

/-- What there is while a unit runs. -/
structure Store where
  locals : String → Value
  /-- What `_ENV` is where no local of that name hides it. -/
  environment : Value
  tables : Nat → Table Value Value
  functions : Nat → Option Closure
  /-- No table and no function has an address from here on. -/
  fresh : Nat

/-- The parameters and locals of a function that runs, latest first. -/
abbrev Activation := Table String Value

def globals : Nat := 0

def environmentName : String := "_ENV"

/-- Where a value is stored. -/
inductive Storage where
  | own (x : String)
  | chunk (x : String)
  | environment
  | entry (table : Nat) (key : Value)

/-- What a name stands for where it is bound: the function's own, a local of the chunk, or the environment that
the chunk is given. -/
def binding? (scope : List String) (frame : Activation) (x : String) : Option Storage :=
  if x ∈ Table.keys frame then some (.own x)
  else if x ∈ scope then some (.chunk x)
  else if x = environmentName then some .environment
  else none

namespace Store

def item (σ : Store) (table : Nat) (key : Value) : Value :=
  (Table.get? (σ.tables table) key).getD .nil

def setItem (σ : Store) (table : Nat) (key value : Value) : Store :=
  { σ with tables := Function.update σ.tables table (Table.put (σ.tables table) key value) }

def setLocal (σ : Store) (x : String) (value : Value) : Store :=
  { σ with locals := Function.update σ.locals x value }

def read (σ : Store) (frame : Activation) : Storage → Value
  | .own x => (Table.get? frame x).getD .nil
  | .chunk x => σ.locals x
  | .environment => σ.environment
  | .entry table key => σ.item table key

/-- The function's own values and the store after a value is put in a storage. -/
def write (σ : Store) (frame : Activation) (value : Value) : Storage → Activation × Store
  | .own x => (Table.put frame x value, σ)
  | .chunk x => (frame, σ.setLocal x value)
  | .environment => (frame, { σ with environment := value })
  | .entry table key => (frame, σ.setItem table key value)

def newTable (σ : Store) (t : Table Value Value) : Nat × Store :=
  (σ.fresh, { σ with tables := Function.update σ.tables σ.fresh t, fresh := σ.fresh + 1 })

def newFunction (σ : Store) (c : Closure) : Nat × Store :=
  (σ.fresh, { σ with functions := Function.update σ.functions σ.fresh (some c), fresh := σ.fresh + 1 })

theorem item_setItem (σ : Store) (table : Nat) (key value : Value) (table' : Nat) (key' : Value) :
    (σ.setItem table key value).item table' key' =
      if table = table' ∧ key = key' then value else σ.item table' key' := by
  by_cases ht : table = table'
  · subst ht
    simp only [item, setItem, Function.update_self, Table.get?_put, true_and]
    split_ifs <;> rfl
  · rw [if_neg fun h => ht h.1]
    simp only [item, setItem, Function.update_of_ne (Ne.symm ht)]

theorem snd_write (σ : Store) (frame : Activation) (v : Value) (s : Storage) :
    (σ.write frame v s).2 = (σ.write [] v s).2 := by
  cases s <;> rfl

section

variable {σ : Store} {s s' : Storage} {v : Value}

theorem read_write_of_ne (h : s ≠ s') : (σ.write [] v s).2.read [] s' = σ.read [] s' := by
  cases s with
  | own x => rfl
  | chunk x =>
    cases s' with
    | chunk y => exact Function.update_of_ne (fun hyx => h (congrArg Storage.chunk hyx.symm)) ..
    | _ => rfl
  | environment =>
    cases s' with
    | environment => exact absurd rfl h
    | _ => rfl
  | entry table key =>
    cases s' with
    | entry table' key' =>
      show (σ.setItem table key v).item table' key' = σ.item table' key'
      rw [item_setItem, if_neg]
      rintro ⟨rfl, rfl⟩
      exact h rfl
    | _ => rfl

theorem read_write_self (h : ∀ x, s ≠ .own x) : (σ.write [] v s).2.read [] s = v := by
  cases s with
  | own x => exact absurd rfl (h x)
  | chunk x => exact Function.update_self ..
  | environment => rfl
  | entry table key =>
    show (σ.setItem table key v).item table key = v
    rw [item_setItem, if_pos ⟨rfl, rfl⟩]

end

/-- A table and the functions that there are stay as they are. -/
structure Keeps (table : Nat) (σ σ' : Store) : Prop where
  table : σ'.tables table = σ.tables table
  functions : ∀ address < σ.fresh, σ'.functions address = σ.functions address
  fresh : σ.fresh ≤ σ'.fresh

variable {table table' : Nat} {σ σ' σ'' : Store}

theorem Keeps.trans (h : Keeps table σ σ') (h' : Keeps table σ' σ'') : Keeps table σ σ'' where
  table := h'.table.trans h.table
  functions address hlt :=
    (h'.functions address (Nat.lt_of_lt_of_le hlt h.fresh)).trans (h.functions address hlt)
  fresh := Nat.le_trans h.fresh h'.fresh

theorem Keeps.item (h : Keeps table σ σ') (key : Value) : σ'.item table key = σ.item table key := by
  rw [Store.item, h.table, Store.item]

theorem keeps_setItem (h : table ≠ table') (key value : Value) :
    Keeps table σ (σ.setItem table' key value) :=
  ⟨Function.update_of_ne h .., fun _ _ => rfl, Nat.le_refl _⟩

theorem keeps_setLocal (x : String) (value : Value) : Keeps table σ (σ.setLocal x value) :=
  ⟨rfl, fun _ _ => rfl, Nat.le_refl _⟩

theorem keeps_setEnvironment (value : Value) : Keeps table σ { σ with environment := value } :=
  ⟨rfl, fun _ _ => rfl, Nat.le_refl _⟩

theorem keeps_newTable (h : table < σ.fresh) (t : Table Value Value) :
    Keeps table σ (σ.newTable t).2 :=
  ⟨Function.update_of_ne (Nat.ne_of_lt h) .., fun _ _ => rfl, Nat.le_succ _⟩

theorem keeps_newFunction (c : Closure) : Keeps table σ (σ.newFunction c).2 :=
  ⟨rfl, fun _ hlt => Function.update_of_ne (Nat.ne_of_lt hlt) .., Nat.le_succ _⟩

end Store

/-- Where a field of a value is stored, if the value is a table. -/
def Value.field? : Value → String → Option Storage
  | .table address, x => some (.entry address (.ofString x))
  | _, _ => none

theorem Value.field?_eq_entry {v : Value} {table : Nat} {x : String} :
    v.field? x = some (.entry table (.ofString x)) ↔ v = .table table := by
  cases v <;> simp [field?]

/-- What a name stands for. A name that is bound nowhere is a field of the environment. -/
def resolve (scope : List String) (frame : Activation) (σ : Store) (x : String) : Option Storage :=
  (binding? scope frame x).or
    ((binding? scope frame environmentName).bind fun s => (σ.read frame s).field? x)

section

variable {scope : List String} {frame : Activation} {x : String} (σ : Store)

theorem resolve_chunk (hframe : x ∉ Table.keys frame) (hscope : x ∈ scope) :
    resolve scope frame σ x = some (.chunk x) := by
  rw [resolve, binding?, if_neg hframe, if_pos hscope, Option.some_or]

theorem resolve_environment (hframe : environmentName ∉ Table.keys frame)
    (hscope : environmentName ∉ scope) : resolve scope frame σ environmentName = some .environment := by
  rw [resolve, binding?, if_neg hframe, if_neg hscope, if_pos rfl, Option.some_or]

theorem resolve_free (hframe : x ∉ Table.keys frame) (hscope : x ∉ scope) (hx : x ≠ environmentName)
    (henvironment : environmentName ∉ Table.keys frame) :
    resolve scope frame σ x =
      (if environmentName ∈ scope then σ.locals environmentName else σ.environment).field? x := by
  rw [resolve, binding?, if_neg hframe, if_neg hscope, if_neg hx, Option.none_or, binding?,
    if_neg henvironment, if_pos rfl]
  split_ifs <;> rfl

end

/-- The number of entries of a table from one on without a gap. -/
def border (t : Table Value Value) : Nat :=
  ((List.range t.length).takeWhile fun i => (Table.get? t (.number (i + 1))).isSome).length

abbrev Caller := Value → List Value → Store → Option (Value × Store)

section

variable (call : Caller) (scope : List String) (frame : Activation)

mutual

/-- The value of a term, and the store after it is computed. -/
def Term.eval : Term → Store → Option (Value × Store)
  | .name x, σ => (resolve scope frame σ x).map fun s => (σ.read frame s, σ)
  | .text s, σ => some (.ofString s, σ)
  | .number n, σ => some (.number n, σ)
  | .item table key, σ => do
      let (t, σ) ← table.eval σ
      let (k, σ) ← key.eval σ
      match t with
      | .table address => return (σ.item address k, σ)
      | _ => none
  | .length table, σ => do
      let (t, σ) ← table.eval σ
      match t with
      | .table address => return (.number (border (σ.tables address)), σ)
      | .text bytes => return (.number bytes.size, σ)
      | _ => none
  | .concat first second, σ => do
      let (a, σ) ← first.eval σ
      let (b, σ) ← second.eval σ
      match a, b with
      | .text a, .text b => return (.text (a ++ b), σ)
      | _, _ => none
  | .equal first second, σ => do
      let (a, σ) ← first.eval σ
      let (b, σ) ← second.eval σ
      return (.bool (a = b), σ)
  | .call function args, σ => do
      let (f, σ) ← function.eval σ
      let (vs, σ) ← Term.evalAll args σ
      call f vs σ

def Term.evalAll : List Term → Store → Option (List Value × Store)
  | [], σ => some ([], σ)
  | t :: ts, σ => do
      let (v, σ) ← t.eval σ
      let (vs, σ) ← Term.evalAll ts σ
      return (v :: vs, σ)

end

/-- The storage that a name or an entry of a table denotes. -/
def Term.storage : Term → Store → Option (Storage × Store)
  | .name x, σ => (resolve scope frame σ x).map fun s => (s, σ)
  | .item table key, σ => do
      let (t, σ) ← table.eval call scope frame σ
      let (k, σ) ← key.eval call scope frame σ
      match t with
      | .table address => return (.entry address k, σ)
      | _ => none
  | _, _ => none

end

/-- How a function goes on after a statement: with its own values, or no more because it has given a
value. -/
inductive Flow where
  | next (frame : Activation)
  | gave (value : Value)

/-- The end of an inner block: only so many own values stay. -/
def Flow.leave (size : Nat) : Flow → Flow
  | next frame => next (frame.drop (frame.length - size))
  | gave value => gave value

/-- Runs a body for numbers from a first one on. -/
def repeated (body : Nat → Activation → Store → Option (Flow × Store)) :
    Nat → Nat → Activation → Store → Option (Flow × Store)
  | 0, _, frame, σ => some (.next frame, σ)
  | n + 1, i, frame, σ => do
      match ← body i frame σ with
      | (.next frame, σ) => repeated body n (i + 1) frame σ
      | (.gave value, σ) => return (.gave value, σ)

def Stat.exec (call : Caller) (scope : List String) : Stat → Activation → Store → Option (Flow × Store)
  | .bind x value, frame, σ => do
      let (v, σ) ← value.eval call scope frame σ
      return (.next ((x, v) :: frame), σ)
  | .assign target value, frame, σ => do
      let (storage, σ) ← target.storage call scope frame σ
      let (v, σ) ← value.eval call scope frame σ
      let (frame, σ) := σ.write frame v storage
      return (.next frame, σ)
  | .when condition body, frame, σ => do
      let (c, σ) ← condition.eval call scope frame σ
      if c.holds then
        let (flow, σ) ← body.exec call scope frame σ
        return (flow.leave frame.length, σ)
      else return (.next frame, σ)
  | .give value, frame, σ => do
      let (v, σ) ← value.eval call scope frame σ
      return (.gave v, σ)
  | .count x last body, frame, σ => do
      let (v, σ) ← last.eval call scope frame σ
      match v with
      | .number n => repeated (fun i frame σ => do
          let (flow, σ) ← body.exec call scope ((x, .number i) :: frame) σ
          return (flow.leave frame.length, σ)) n 1 frame σ
      | _ => none

/-- Runs statements one after the other, up to one that gives a value. -/
def Stat.execAll (call : Caller) (scope : List String) :
    List Stat → Activation → Store → Option (Flow × Store)
  | [], frame, σ => some (.next frame, σ)
  | s :: ss, frame, σ => do
      match ← s.exec call scope frame σ with
      | (.next frame, σ) => Stat.execAll call scope ss frame σ
      | (.gave value, σ) => return (.gave value, σ)

section

variable {call : Caller} {scope : List String} {frame frame' : Activation} {σ σ' : Store}
  {s : Stat} {value : Value}

theorem Stat.execAll_next (h : s.exec call scope frame σ = some (.next frame', σ')) (ss : List Stat) :
    Stat.execAll call scope (s :: ss) frame σ = Stat.execAll call scope ss frame' σ' := by
  rw [Stat.execAll, h]
  rfl

theorem Stat.execAll_gave (h : s.exec call scope frame σ = some (.gave value, σ')) (ss : List Stat) :
    Stat.execAll call scope (s :: ss) frame σ = some (.gave value, σ') := by
  rw [Stat.execAll, h]
  rfl

end

/-- The parameters of a function with the arguments of a call; one that gets none is nil. -/
def Func.activation (f : Func) (args : List Value) : Activation :=
  (f.params.zip (args ++ List.replicate f.params.length .nil)).reverse

/-- The value of a call, with at most so many levels of calls in one another. -/
def callWithin : Nat → Caller
  | _, .part, [.text bytes, .number first, .number last], σ =>
      some (.text (bytes.extract (first - 1) last), σ)
  | levels + 1, .function address, args, σ => do
      let c ← σ.functions address
      let (flow, σ) ← Stat.execAll (callWithin levels) c.scope c.code.body
        (c.code.activation args) σ
      match flow with
      | .next _ => return (.nil, σ)
      | .gave value => return (value, σ)
  | _, _, _, _ => none

section

variable {levels address : Nat} {args : List Value} {σ σ' : Store} {c : Closure}

theorem callWithin_next {frame : Activation} (hc : σ.functions address = some c)
    (h : Stat.execAll (callWithin levels) c.scope c.code.body (c.code.activation args) σ =
      some (.next frame, σ')) :
    callWithin (levels + 1) (.function address) args σ = some (.nil, σ') := by
  simp only [callWithin, hc, Option.bind_eq_bind, Option.bind_some, h]
  rfl

theorem callWithin_gave {value : Value} (hc : σ.functions address = some c)
    (h : Stat.execAll (callWithin levels) c.scope c.code.body (c.code.activation args) σ =
      some (.gave value, σ')) :
    callWithin (levels + 1) (.function address) args σ = some (value, σ') := by
  simp only [callWithin, hc, Option.bind_eq_bind, Option.bind_some, h]
  rfl

theorem callWithin_part (levels : Nat) (bytes : ByteArray) (first last : Nat) (σ : Store) :
    callWithin levels .part [.text bytes, .number first, .number last] σ =
      some (.text (bytes.extract (first - 1) last), σ) := by
  cases levels <;> rfl

end

/-- A chunk that runs: the locals that its statements see, and the store. -/
structure Chunk where
  scope : List String
  store : Store

/-- The entries of a list, from one on. -/
def listEntries (entries : List String) : Table Value Value :=
  entries.zipIdx.map fun e => (.number (e.2 + 1), .ofString e.1)

def Chunk.declare (c : Chunk) (x : String) (value : Value) : Chunk :=
  ⟨c.scope ++ [x], c.store.setLocal x value⟩

/-- Puts a function that sees the chunk into an entry of a table. -/
def Chunk.define (c : Chunk) (target : Term) (f : Func) : Option Chunk := do
  let (storage, σ) ← target.storage (callWithin 0) c.scope [] c.store
  let (address, σ) := σ.newFunction ⟨c.scope, f⟩
  return { c with store := (σ.write [] (.function address) storage).2 }

/-- Runs a statement of a chunk. The statements of a chunk call no function. -/
def Item.exec (c : Chunk) : Item → Option Chunk
  | .blank => some c
  | .texts x entries =>
      let (address, σ) := c.store.newTable (listEntries entries)
      some (Chunk.declare ⟨c.scope, σ⟩ x (.table address))
  | .zero x => some (c.declare x (.number 0))
  | .assign target value => do
      let (storage, σ) ← target.storage (callWithin 0) c.scope [] c.store
      let (v, σ) ← value.eval (callWithin 0) c.scope [] σ
      return { c with store := (σ.write [] v storage).2 }
  | .entry table key f => c.define (table.item key) f
  | .method object field f => c.define ((Term.name object).item (.text field)) f

/-- Runs the statements of a chunk in order. -/
def Item.execAll (c : Chunk) (items : List Item) : Option Chunk := items.foldlM Item.exec c

theorem Item.execAll_cons {c c' : Chunk} {i : Item} (h : i.exec c = some c') (items : List Item) :
    Item.execAll c (i :: items) = Item.execAll c' items := by
  rw [Item.execAll, List.foldlM_cons, h]
  rfl

theorem Item.execAll_append {c c' : Chunk} {items : List Item} (h : Item.execAll c items = some c')
    (items' : List Item) : Item.execAll c (items ++ items') = Item.execAll c' items' := by
  rw [Item.execAll] at h
  rw [Item.execAll, List.foldlM_append, h]
  rfl

end Lua
end GameScript
