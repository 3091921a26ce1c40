import GameScript.Proofs.Promotion.Access
import GameScript.Proofs.Promotion.Storage

/-! What running the declarations and the accessors leaves behind: every variable is there, and a reader
and a writer for every local, and the functions of the runtime that look them up. Each function sees the
locals that it names. -/

namespace GameScript

open Lua Lua.Store

namespace Promotion

/-- An entry of a table is a function that sees some names. -/
def Provides (σ : Store) (table : Nat) (key : String) (f : Func) (names : List String) : Prop :=
  ∃ address scope, σ.item table (.ofString key) = .function address ∧ address < σ.fresh ∧
    σ.functions address = some ⟨scope, f⟩ ∧ names ⊆ scope

/-- A table has a function for each of some names, and nothing for other names. -/
structure Equips (σ : Store) (table : Nat) (f : String → Func) (names : List String) : Prop where
  provides : ∀ x ∈ names, Provides σ table x (f x) [x]
  absent : ∀ x ∉ names, σ.item table (.ofString x) = .nil

/-- What the expressions of the preamble stand for. -/
structure IsLibrary (library : String → Value) : Prop where
  part : library "string.sub" = .part
  globalTable : library "_G" = .table globals

/-- The preamble of a unit has run, and some locals are declared. -/
structure Started (library : String → Value) (runtime : Nat) (names : List String) (c : Chunk) :
    Prop where
  scope : c.scope = preambleNames ++ names
  constants : ∀ e ∈ Assembly.preambleLocals, c.store.locals e.1 = library e.2
  environment : c.store.environment = .table globals
  runtimeTable : c.store.locals "__pulp" = .table runtime
  apart : runtime ≠ globals
  allocated : runtime < c.store.fresh ∧ globals < c.store.fresh

/-- The tables that give access to variables by name. -/
structure Addresses where
  runtime : Nat
  readers : Nat
  writers : Nat
  names : Nat

/-- Variables can be reached by name. -/
structure Installed (p : Promotion) (a : Addresses) (σ : Store) : Prop where
  part : σ.locals "__sub" = .part
  globalTable : σ.locals "__G" = .table globals
  runtimeTable : σ.locals "__pulp" = .table a.runtime
  readerTable : σ.locals "__var_get" = .table a.readers
  writerTable : σ.locals "__var_set" = .table a.writers
  nameTable : σ.locals "__var_fallback" = .table a.names
  apart : ∀ t ∈ [a.runtime, a.readers, a.writers, a.names], t ≠ globals
  readers : Equips σ a.readers getter p.locals
  writers : Equips σ a.writers setter p.locals
  names : σ.tables a.names = listEntries p.table
  getvariable : Provides σ a.runtime "getvariable" Promotion.getvariable ["__sub", "__var_get", "__G"]
  setvariable : Provides σ a.runtime "setvariable" Promotion.setvariable ["__sub", "__var_set", "__G"]
  resetvariables : Provides σ a.runtime "resetvariables" p.resetvariables
    (["__var_fallback", "__G"] ++ p.locals)

/-! ### What stays -/

variable {σ σ' : Store} {table table' : Nat} {key key' : String} {f f' : Func}
  {names : List String} {functions : String → Func}

theorem Provides.keeps (h : Provides σ table key f names) (hk : Keeps table σ σ') :
    Provides σ' table key f names := by
  obtain ⟨address, scope, hitem, hlt, hfunction, hnames⟩ := h
  exact ⟨address, scope, (hk.item _).trans hitem, Nat.lt_of_lt_of_le hlt hk.fresh,
    (hk.functions address hlt).trans hfunction, hnames⟩

theorem Equips.keeps (h : Equips σ table functions names) (hk : Keeps table σ σ') :
    Equips σ' table functions names where
  provides x hx := (h.provides x hx).keeps hk
  absent x hx := (hk.item _).trans (h.absent x hx)

/-- The locals of the unit that the functions of the runtime use. -/
def accessNames : List String := ["__sub", "__G", "__pulp", "__var_get", "__var_set", "__var_fallback"]

theorem isOwn_accessNames : ∀ x ∈ accessNames, isOwn x = true := by decide

theorem Installed.keeps {p : Promotion} {a : Addresses} (h : Installed p a σ)
    (hlocals : ∀ x ∈ accessNames, σ'.locals x = σ.locals x)
    (hk : ∀ t, t ≠ globals → Keeps t σ σ') : Installed p a σ' := by
  have apart := h.apart
  simp only [List.forall_mem_cons, List.not_mem_nil, false_implies, implies_true, and_true] at apart
  simp only [accessNames, List.forall_mem_cons, List.not_mem_nil, false_implies, implies_true,
    and_true] at hlocals
  obtain ⟨runtime, readers, writers, nameTable⟩ := apart
  obtain ⟨hsub, hG, hpulp, hget, hset, hfallback⟩ := hlocals
  exact {
    part := hsub.trans h.part
    globalTable := hG.trans h.globalTable
    runtimeTable := hpulp.trans h.runtimeTable
    readerTable := hget.trans h.readerTable
    writerTable := hset.trans h.writerTable
    nameTable := hfallback.trans h.nameTable
    apart := h.apart
    readers := h.readers.keeps (hk _ readers)
    writers := h.writers.keeps (hk _ writers)
    names := (hk _ nameTable).table.trans h.names
    getvariable := h.getvariable.keeps (hk _ runtime)
    setvariable := h.setvariable.keeps (hk _ runtime)
    resetvariables := h.resetvariables.keeps (hk _ runtime) }

/-- Variables can still be reached by name after one of them is written. -/
theorem Installed.write {p : Promotion} {a : Addresses} (h : Installed p a σ) {s : Storage}
    (hs : OfVariable s) (value : Value) : Installed p a (σ.write [] value s).2 := by
  cases s with
  | own x => exact hs.elim
  | chunk x =>
    have other : ∀ y ∈ accessNames, y ≠ x := fun y hy => ne_of_isOwn (isOwn_accessNames y hy) hs
    exact h.keeps (fun y hy => Function.update_of_ne (other y hy) ..) fun _ _ => keeps_setLocal x value
  | environment => exact h.keeps (fun _ _ => rfl) fun _ _ => keeps_setEnvironment value
  | entry table key =>
    obtain rfl : table = globals := hs
    exact h.keeps (fun _ _ => rfl) fun _ ht => keeps_setItem ht key value

/-! ### Single statements -/

def defined (c : Chunk) (table : Nat) (key : String) (f : Func) : Chunk :=
  ⟨c.scope, (c.store.newFunction ⟨c.scope, f⟩).2.setItem table (.ofString key)
    (.function c.store.fresh)⟩

def listed (c : Chunk) (x : String) (entries : List String) : Chunk :=
  Chunk.declare ⟨c.scope, (c.store.newTable (listEntries entries)).2⟩ x (.table c.store.fresh)

variable {c : Chunk}

theorem define_eq {object : String} (hscope : object ∈ c.scope)
    (hobject : c.store.locals object = .table table) :
    c.define ((Term.name object).item (.text key)) f = some (defined c table key f) := by
  simp [Chunk.define, Term.storage, Term.eval, resolve, binding?, Table.keys, hscope, Store.read, hobject,
    Store.newFunction, Store.write, defined]

@[simp] theorem listed_scope (x : String) (entries : List String) :
    (listed c x entries).scope = c.scope ++ [x] := rfl

@[simp] theorem listed_locals (x : String) (entries : List String) :
    (listed c x entries).store.locals = Function.update c.store.locals x (.table c.store.fresh) := rfl

theorem listed_table (x : String) (entries : List String) :
    (listed c x entries).store.tables c.store.fresh = listEntries entries :=
  Function.update_self ..

theorem keeps_defined (h : table ≠ table') :
    Keeps table c.store (defined c table' key f).store :=
  (keeps_newFunction _).trans (keeps_setItem h _ _)

theorem keeps_listed (h : table < c.store.fresh) (x : String) (entries : List String) :
    Keeps table c.store (listed c x entries).store :=
  (keeps_newTable h _).trans (keeps_setLocal _ _)

theorem item_defined (key' : Value) : (defined c table key f).store.item table key' =
    if .ofString key = key' then .function c.store.fresh else c.store.item table key' := by
  simp only [defined, item_setItem, true_and]
  rfl

theorem provides_defined (hnames : names ⊆ c.scope) :
    Provides (defined c table key f).store table key f names := by
  refine ⟨c.store.fresh, c.scope, ?_, Nat.lt_succ_self _, Function.update_self .., hnames⟩
  rw [item_defined, if_pos rfl]

theorem Provides.defined (h : Provides c.store table key' f' names) (hne : key ≠ key') :
    Provides (defined c table key f).store table key' f' names := by
  obtain ⟨address, scope, hitem, hlt, hfunction, hnames⟩ := h
  refine ⟨address, scope, ?_, Nat.lt_succ_of_lt hlt, ?_, hnames⟩
  · rw [item_defined, if_neg fun hkey => hne (Value.ofString_injective hkey), hitem]
  · exact (Function.update_of_ne (Nat.ne_of_lt hlt) ..).trans hfunction

theorem Equips.defined (h : Equips c.store table functions names) {x : String} (hx : x ∈ c.scope) :
    Equips (defined c table x (functions x)).store table functions (names ++ [x]) where
  provides y hy := by
    by_cases hyx : x = y
    · subst hyx
      exact provides_defined (by simpa using hx)
    · exact (h.provides y (by simpa [Ne.symm hyx] using hy)).defined hyx
  absent y hy := by
    have hy : y ∉ names ∧ y ≠ x := by simpa using hy
    rw [item_defined, if_neg fun hkey => hy.2 (Value.ofString_injective hkey).symm, h.absent y hy.1]

theorem equips_listed (x : String) : Equips (listed c x []).store c.store.fresh functions [] where
  provides _ h := absurd h List.not_mem_nil
  absent y _ := by
    simp [listed, Chunk.declare, Store.setLocal, Store.newTable, Store.item, listEntries, Table.get?]

/-! ### The declarations -/

variable {library : String → Value} {runtime : Nat} {done : List String}

theorem Started.part (h : Started library runtime done c) (hl : IsLibrary library) :
    c.store.locals "__sub" = .part :=
  (h.constants ("__sub", "string.sub") (by decide)).trans hl.part

theorem Started.globalTable (h : Started library runtime done c) (hl : IsLibrary library) :
    c.store.locals "__G" = .table globals :=
  (h.constants ("__G", "_G") (by decide)).trans hl.globalTable

theorem Started.mem_scope (h : Started library runtime done c) {x : String}
    (hx : x ∈ preambleNames) : x ∈ c.scope := by
  rw [h.scope]
  exact List.mem_append_left _ hx

theorem Started.mem_scope_done (h : Started library runtime done c) {x : String} (hx : x ∈ done) :
    x ∈ c.scope := by
  rw [h.scope]
  exact List.mem_append_right _ hx

theorem Started.declare (h : Started library runtime done c) {x : String} (hx : isOwn x = false)
    (value : Value) : Started library runtime (done ++ [x]) (c.declare x value) := by
  have other : ∀ y ∈ preambleNames, (c.declare x value).store.locals y = c.store.locals y := fun y hy =>
    Function.update_of_ne (ne_of_isOwn (isOwn_preambleNames y hy) hx) ..
  refine ⟨?_, fun e he => ?_, h.environment, ?_, h.apart, h.allocated⟩
  · show c.scope ++ [x] = preambleNames ++ (done ++ [x])
    rw [h.scope, List.append_assoc]
  · exact (other _ (List.mem_cons_of_mem _ (List.mem_map_of_mem he))).trans (h.constants e he)
  · exact (other _ (by decide)).trans h.runtimeTable

theorem zeros_exec (names : List String) (hnames : ∀ x ∈ names, isOwn x = false)
    (h : Started library runtime done c) :
    ∃ c', Item.execAll c (names.map .zero) = some c' ∧
      Started library runtime (done ++ names) c' := by
  induction names generalizing c done with
  | nil => exact ⟨c, rfl, by rwa [List.append_nil]⟩
  | cons x names ih =>
    obtain ⟨hx, hnames⟩ := List.forall_mem_cons.mp hnames
    obtain ⟨c', hrun, h'⟩ := ih hnames (h.declare hx (.number 0))
    refine ⟨c', ?_, by simpa using h'⟩
    rw [List.map_cons, Item.execAll_cons rfl, hrun]

theorem entries_exec (names : List String) (hl : IsLibrary library)
    (h : Started library runtime done c) :
    ∃ c', Item.execAll c
        (names.map fun x => .assign (.item (.name variableTable) (.text x)) (.number 0)) = some c' ∧
      Started library runtime done c' := by
  induction names generalizing c with
  | nil => exact ⟨c, rfl, h⟩
  | cons x names ih =>
    have step : (Item.assign (.item (.name variableTable) (.text x)) (.number 0)).exec c =
        some ⟨c.scope, c.store.setItem globals (.ofString x) (.number 0)⟩ := by
      simp [Item.exec, Term.storage, Term.eval, resolve, binding?, Table.keys, variableTable,
        h.mem_scope (x := "__G") (by decide), Store.read, h.globalTable hl, Store.write]
    obtain ⟨c', hrun, h'⟩ := ih (c := ⟨c.scope, c.store.setItem globals (.ofString x) (.number 0)⟩)
      ⟨h.scope, h.constants, h.environment, h.runtimeTable, h.apart, h.allocated⟩
    exact ⟨c', by rw [List.map_cons, Item.execAll_cons step, hrun], h'⟩

/-- Behind the preamble, the declarations declare the locals. -/
theorem declarationItems_exec {p : Promotion} (hp : ∀ x ∈ p.locals, isOwn x = false)
    (hl : IsLibrary library) (h : Started library runtime [] c) :
    ∃ c', Item.execAll c p.declarationItems = some c' ∧ Started library runtime p.locals c' := by
  obtain ⟨c₁, hrun₁, h₁⟩ := zeros_exec p.locals hp h
  obtain ⟨c₂, hrun₂, h₂⟩ := entries_exec p.table hl h₁
  refine ⟨c₂, ?_, h₂⟩
  rw [declarationItems, Item.execAll_append hrun₁, hrun₂]

/-! ### The accessors -/

/-- Some locals have readers and writers, and nothing else has changed. -/
structure Stage (readers writers : Nat) (c₀ : Chunk) (done : List String) (c : Chunk) : Prop where
  scope : c.scope = c₀.scope
  locals : c.store.locals = c₀.store.locals
  environment : c.store.environment = c₀.store.environment
  fresh : c₀.store.fresh ≤ c.store.fresh
  readers : Equips c.store readers getter done
  writers : Equips c.store writers setter done

section

variable {readers writers : Nat} {c₀ : Chunk} (hne : readers ≠ writers)
  (hscope : ["__var_get", "__var_set"] ⊆ c₀.scope)
  (hreaders : c₀.store.locals "__var_get" = .table readers)
  (hwriters : c₀.store.locals "__var_set" = .table writers)

include hne hscope hreaders hwriters

theorem Stage.step {x : String} (hx : x ∈ c₀.scope) (h : Stage readers writers c₀ done c) :
    ∃ c', Item.execAll c (localItems x) = some c' ∧
      Stage readers writers c₀ (done ++ [x]) c' := by
  have read : (Item.entry (.name "__var_get") (.text x) (getter x)).exec c =
      some (Promotion.defined c readers x (getter x)) :=
    define_eq (by rw [h.scope]; exact hscope (by decide)) (by rw [h.locals, hreaders])
  have write : (Item.entry (.name "__var_set") (.text x) (setter x)).exec
      (Promotion.defined c readers x (getter x)) =
        some (Promotion.defined (Promotion.defined c readers x (getter x)) writers x (setter x)) := by
    refine define_eq ?_ ?_
    · show "__var_set" ∈ c.scope
      rw [h.scope]
      exact hscope (by decide)
    · show c.store.locals "__var_set" = _
      rw [h.locals, hwriters]
  have hxc : x ∈ c.scope := h.scope ▸ hx
  refine ⟨Promotion.defined (Promotion.defined c readers x (getter x)) writers x (setter x),
    ?_, h.scope, h.locals, h.environment, ?_, ?_, ?_⟩
  · rw [localItems, Item.execAll_cons read, Item.execAll_cons write]
    rfl
  · exact Nat.le_trans h.fresh (Nat.le_add_right _ 2)
  · exact (h.readers.defined hxc).keeps (keeps_defined hne)
  · exact (h.writers.keeps (keeps_defined hne.symm)).defined hxc

theorem Stage.run (names : List String) (hnames : names ⊆ c₀.scope)
    (h : Stage readers writers c₀ done c) :
    ∃ c', Item.execAll c (names.flatMap localItems) = some c' ∧
      Stage readers writers c₀ (done ++ names) c' := by
  induction names generalizing c done with
  | nil => exact ⟨c, rfl, by rwa [List.append_nil]⟩
  | cons x names ih =>
    obtain ⟨hx, hnames⟩ := List.cons_subset.mp hnames
    obtain ⟨c₁, hrun₁, h₁⟩ := h.step hne hscope hreaders hwriters hx
    obtain ⟨c₂, hrun₂, h₂⟩ := ih hnames h₁
    refine ⟨c₂, ?_, by simpa using h₂⟩
    rw [List.flatMap_cons, Item.execAll_append hrun₁, hrun₂]

end

theorem methodItems_exec {field : String} (hscope : "__pulp" ∈ c.scope)
    (hruntime : c.store.locals "__pulp" = .table runtime) :
    Item.execAll c (methodItems field f) = some (defined c runtime field f) := by
  have method : (Item.method "__pulp" field f).exec c = some (defined c runtime field f) :=
    define_eq hscope hruntime
  rw [methodItems, Item.execAll_cons rfl, Item.execAll_cons method]
  rfl

def tabled (c : Chunk) : Chunk := listed (listed c "__var_get" []) "__var_set" []

theorem tabled_scope : (tabled c).scope = c.scope ++ ["__var_get", "__var_set"] := by
  simp [tabled]

theorem tabled_locals : (tabled c).store.locals = Function.update
    (Function.update c.store.locals "__var_get" (.table c.store.fresh))
      "__var_set" (.table (c.store.fresh + 1)) := rfl

theorem tabled_stage : Stage c.store.fresh (c.store.fresh + 1) (tabled c) [] (tabled c) where
  scope := rfl
  locals := rfl
  environment := rfl
  fresh := Nat.le_refl _
  readers := (equips_listed _).keeps (keeps_listed (Nat.lt_succ_self _) _ _)
  writers := equips_listed _

def runtimeDefined (p : Promotion) (runtime : Nat) (c : Chunk) : Chunk :=
  defined (defined (defined c runtime "getvariable" getvariable) runtime "setvariable" setvariable)
    runtime "resetvariables" p.resetvariables

theorem keeps_runtimeDefined (p : Promotion) (h : table ≠ runtime) :
    Keeps table c.store (runtimeDefined p runtime c).store :=
  ((keeps_defined h).trans (keeps_defined h)).trans (keeps_defined h)

theorem runtimeDefined_exec (p : Promotion) (hscope : "__pulp" ∈ c.scope)
    (hruntime : c.store.locals "__pulp" = .table runtime) :
    Item.execAll c (methodItems "getvariable" getvariable ++
      methodItems "setvariable" setvariable ++ methodItems "resetvariables" p.resetvariables) =
        some (runtimeDefined p runtime c) := by
  have get : Item.execAll c (methodItems "getvariable" getvariable) =
      some (defined c runtime "getvariable" getvariable) := methodItems_exec hscope hruntime
  have set : Item.execAll (defined c runtime "getvariable" getvariable)
      (methodItems "setvariable" setvariable) =
        some (defined (defined c runtime "getvariable" getvariable) runtime "setvariable"
          setvariable) := methodItems_exec hscope hruntime
  rw [Item.execAll_append (by rw [Item.execAll_append get, set])]
  exact methodItems_exec hscope hruntime

theorem runtimeDefined_provides (p : Promotion) (runtime : Nat)
    (hscope : ["__sub", "__var_get", "__var_set", "__var_fallback", "__G"] ⊆ c.scope)
    (hlocals : p.locals ⊆ c.scope) :
    Provides (runtimeDefined p runtime c).store runtime "getvariable" getvariable
        ["__sub", "__var_get", "__G"] ∧
      Provides (runtimeDefined p runtime c).store runtime "setvariable" setvariable
        ["__sub", "__var_set", "__G"] ∧
      Provides (runtimeDefined p runtime c).store runtime "resetvariables" p.resetvariables
        (["__var_fallback", "__G"] ++ p.locals) := by
  have seen : ∀ names ⊆ ["__sub", "__var_get", "__var_set", "__var_fallback", "__G"],
      names ⊆ c.scope := fun _ h => List.Subset.trans h hscope
  have get : Provides (defined c runtime "getvariable" getvariable).store runtime "getvariable"
      getvariable ["__sub", "__var_get", "__G"] := provides_defined (seen _ (by decide))
  have set : Provides (defined (defined c runtime "getvariable" getvariable) runtime "setvariable"
      setvariable).store runtime "setvariable" setvariable ["__sub", "__var_set", "__G"] :=
    provides_defined (seen _ (by decide))
  exact ⟨(get.defined (by decide)).defined (by decide), set.defined (by decide),
    provides_defined (List.append_subset.mpr ⟨seen _ (by decide), hlocals⟩)⟩

/-- Behind the declarations, the accessors make every variable one that can be reached by name. -/
theorem accessorItems_exec {p : Promotion} (hl : IsLibrary library)
    (h : Started library runtime p.locals c) :
    ∃ c' a, Item.execAll c p.accessorItems = some c' ∧
      c'.scope = c.scope ++ ["__var_get", "__var_set", "__var_fallback"] ∧
      c'.store.environment = .table globals ∧ Installed p a c'.store := by
  have hlocals : p.locals ⊆ (tabled c).scope := by
    intro x hx
    rw [tabled_scope]
    exact List.mem_append_left _ (h.mem_scope_done hx)
  obtain ⟨c₁, hrun₁, h₁⟩ := tabled_stage.run (by omega) (by simp [tabled_scope])
    (by simp [tabled_locals]) (by simp [tabled_locals]) p.locals hlocals
  have fresh₁ : c.store.fresh + 2 ≤ c₁.store.fresh := h₁.fresh
  obtain ⟨hruntime, hglobals⟩ := h.allocated
  -- The list of the other names, on top of the readers and writers.
  let c₂ := listed c₁ "__var_fallback" p.table
  have scope₂ : c₂.scope = c.scope ++ ["__var_get", "__var_set", "__var_fallback"] := by
    simp [c₂, h₁.scope, tabled_scope]
  have locals₂ : c₂.store.locals = Function.update (tabled c).store.locals "__var_fallback"
      (.table c₁.store.fresh) := by
    rw [listed_locals, h₁.locals]
  have hpulp : c₂.store.locals "__pulp" = .table runtime := by
    simp [locals₂, tabled_locals, h.runtimeTable]
  refine ⟨runtimeDefined p runtime c₂, ⟨runtime, c.store.fresh, c.store.fresh + 1, c₁.store.fresh⟩,
    ?_, scope₂, h₁.environment.trans h.environment, ?_⟩
  · have tables : Item.execAll c [.blank, .texts "__var_get" [], .texts "__var_set" []] =
        some (tabled c) := rfl
    have other : Item.execAll c₁ [.texts "__var_fallback" p.table] = some c₂ := rfl
    have methods := runtimeDefined_exec p (c := c₂) (by simp [scope₂, h.scope, preambleNames]) hpulp
    rw [accessorItems, List.append_assoc, List.append_assoc, List.append_assoc,
      List.append_assoc, Item.execAll_append tables, Item.execAll_append hrun₁,
      Item.execAll_append other, ← List.append_assoc, methods]
  · have keeps : ∀ t, t < c₁.store.fresh → t ≠ runtime →
        Keeps t c₁.store (runtimeDefined p runtime c₂).store := fun t hlt hne =>
      (keeps_listed hlt _ _).trans (keeps_runtimeDefined p hne)
    have methods := runtimeDefined_provides (c := c₂) p runtime
      (by simp [scope₂, h.scope, preambleNames, Assembly.preambleLocals])
      (fun x hx => by simp [scope₂, h.scope, hx])
    exact {
      part := by
        show c₂.store.locals "__sub" = .part
        simp [locals₂, tabled_locals, h.part hl]
      globalTable := by
        show c₂.store.locals "__G" = .table globals
        simp [locals₂, tabled_locals, h.globalTable hl]
      runtimeTable := hpulp
      readerTable := by
        show c₂.store.locals "__var_get" = .table c.store.fresh
        simp [locals₂, tabled_locals]
      writerTable := by
        show c₂.store.locals "__var_set" = .table (c.store.fresh + 1)
        simp [locals₂, tabled_locals]
      nameTable := by
        show c₂.store.locals "__var_fallback" = .table c₁.store.fresh
        simp [locals₂]
      apart := by
        simp only [List.forall_mem_cons, List.not_mem_nil, false_implies, implies_true, and_true]
        exact ⟨h.apart, by omega, by omega, by omega⟩
      readers := h₁.readers.keeps (keeps _ (by omega) (by omega))
      writers := h₁.writers.keeps (keeps _ (by omega) (by omega))
      names := by
        have hne : c₁.store.fresh ≠ runtime := by omega
        exact (keeps_runtimeDefined p hne).table.trans (listed_table _ _)
      getvariable := methods.1
      setvariable := methods.2.1
      resetvariables := methods.2.2 }

end Promotion
end GameScript
