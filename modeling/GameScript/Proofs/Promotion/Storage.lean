import GameScript.Promotion
import GameScript.Proofs.Compile.Declarations
import GameScript.Proofs.Lua.Semantics

/-! Where variables are stored. A variable is a local of the unit or a global, under its spelled name. No name
of the unit's own and none that a function binds is the spelled name of a variable, so the code of a handler
refers to a local, and to what cannot be spelled as a name, where it is stored. A name past the most used ones is
a field of `_ENV` for that code, so there it also matters what `_ENV` is, and `_ENV` is a name that a variable
can have. -/

namespace GameScript

open Lua

namespace Lua

/-! ### Spelled names -/

theorem isPrefixOf_iff {cs : List Char} :
    reservedPrefix.isPrefixOf cs = true ↔ ∃ rest, cs = '_' :: '_' :: rest := by
  rw [List.isPrefixOf_iff_prefix]
  constructor
  · rintro ⟨rest, rfl⟩
    exact ⟨rest, rfl⟩
  · rintro ⟨rest, rfl⟩
    exact ⟨rest, rfl⟩

/-- The spelled name of a variable has the prefix of the compiler's names twice or not at all. -/
theorem escapeReserved_cases (v : String) :
    (∃ rest, v.toList = '_' :: '_' :: rest ∧
        (escapeReserved v).toList = '_' :: '_' :: '_' :: '_' :: rest) ∨
      (∀ rest, v.toList ≠ '_' :: '_' :: rest) ∧ escapeReserved v = v := by
  by_cases h : reservedPrefix.isPrefixOf v.toList
  · obtain ⟨rest, hrest⟩ := isPrefixOf_iff.mp h
    refine .inl ⟨rest, hrest, ?_⟩
    rw [escapeReserved, if_pos h, String.toList_ofList, hrest]
    rfl
  · refine .inr ⟨fun rest hrest => h (isPrefixOf_iff.mpr ⟨rest, hrest⟩), ?_⟩
    rw [escapeReserved, if_neg h]

theorem escapeReserved_injective {v w : String} (h : escapeReserved v = escapeReserved w) :
    v = w := by
  rcases escapeReserved_cases v with ⟨rest, hv, hv'⟩ | ⟨hv, hv'⟩ <;>
    rcases escapeReserved_cases w with ⟨rest', hw, hw'⟩ | ⟨hw, hw'⟩
  · rw [h, hw'] at hv'
    apply String.toList_injective
    rw [hv, hw]
    simpa using hv'.symm
  · rw [h, hw'] at hv'
    exact absurd hv' (hw _)
  · rw [← h, hv'] at hw'
    exact absurd hw' (hv _)
  · rw [← hv', ← hw', h]

/-- The names that no variable is spelled as: those with the prefix of the compiler's names once, and the
event that handlers are given. -/
def isOwn (x : String) : Bool :=
  x = "event" || match x.toList with
    | '_' :: '_' :: '_' :: '_' :: _ => false
    | '_' :: '_' :: _ => true
    | _ => false

theorem ne_of_isOwn {x y : String} (hx : isOwn x = true) (hy : isOwn y = false) : x ≠ y := by
  rintro rfl
  rw [hx] at hy
  cases hy

theorem isOwn_escapeReserved {v : String} (h : isIdentifier (escapeReserved v) = true) :
    isOwn (escapeReserved v) = false := by
  have event : escapeReserved v ≠ "event" := by
    intro heq
    rw [heq] at h
    revert h
    decide
  rw [isOwn, decide_eq_false event, Bool.false_or]
  rcases escapeReserved_cases v with ⟨rest, -, hv⟩ | ⟨hv, hv'⟩
  · rw [hv]
    rfl
  · rw [hv']
    split
    · rfl
    · exact absurd ‹_› (hv _)
    · rfl

/-- The term that refers to a variable. -/
def reference (v : String) : Term :=
  let x := escapeReserved v
  if isIdentifier x then .name x else .item (.name variableTable) (.text x)

theorem spelled_reference (v : String) : (reference v).spelled = variableRef v := by
  rw [reference, variableRef]
  split <;> rfl

end Lua

/-- The names that the functions of a unit bind: the parameters of handlers, what tells and mimics bind,
and what functions declare. -/
def Compile.boundNames : List String :=
  ["__self", "__actor", "event", "__evname", "__mimic_target__", "__evobj"] ++
    Accessor.table.filterMap fun e => e.2.declaration?.map declaredName

theorem Compile.isOwn_boundNames : ∀ x ∈ boundNames, isOwn x = true ∧ x ≠ variableTable := by
  decide +kernel

namespace Promotion

def preambleNames : List String := "__pulp" :: Assembly.preambleLocals.map Prod.fst

theorem isOwn_preambleNames : ∀ x ∈ preambleNames, isOwn x = true := by decide +kernel

/-- Where the value of a variable is stored. -/
def storage (p : Promotion) (v : String) : Storage :=
  let x := escapeReserved v
  if x ∈ p.locals then .chunk x else .entry globals (.ofString x)

theorem storage_ne_own (p : Promotion) (v x : String) : p.storage v ≠ .own x := by
  rw [storage]
  split_ifs <;> exact Storage.noConfusion

theorem storage_ne_environment (p : Promotion) (v : String) : p.storage v ≠ .environment := by
  rw [storage]
  split_ifs <;> exact Storage.noConfusion

/-- Where a program may store values: in no local of the unit's own and in no table of the runtime. -/
def OfVariable : Storage → Prop
  | .own _ => False
  | .chunk x => isOwn x = false
  | .environment => True
  | .entry table _ => table = globals

theorem ofVariable_storage {p : Promotion} (hp : ∀ x ∈ p.locals, isOwn x = false) (v : String) :
    OfVariable (p.storage v) := by
  rw [storage]
  split_ifs with hx
  · exact hp _ hx
  · rfl

/-- Different variables have different storage. -/
theorem storage_injective (p : Promotion) {v w : String} (h : p.storage v = p.storage w) : v = w := by
  rw [storage, storage] at h
  apply escapeReserved_injective
  split_ifs at h
  · exact Storage.chunk.inj h
  · exact Value.ofString_injective (Storage.entry.inj h).2

theorem isIdentifier_of_mem_locals {usage : Table String Nat} {x : String}
    (h : x ∈ (ofUsage usage).locals) : isIdentifier x = true :=
  (List.mem_filter.mp (List.mem_of_mem_take h)).2

theorem ranked_perm (usage : Table String Nat) :
    (ranked usage).Perm ((Table.keys usage).map escapeReserved) := by
  rw [Table.keys, List.map_map]
  exact (List.mergeSort_perm usage _).map _

theorem exists_of_mem_locals {usage : Table String Nat} {x : String}
    (h : x ∈ (ofUsage usage).locals) : ∃ v ∈ Table.keys usage, x = escapeReserved v := by
  have hx := (ranked_perm usage).mem_iff.mp (List.mem_filter.mp (List.mem_of_mem_take h)).1
  obtain ⟨v, hv, rfl⟩ := List.mem_map.mp hx
  exact ⟨v, hv, rfl⟩

theorem isOwn_of_mem_locals {usage : Table String Nat} {x : String}
    (h : x ∈ (ofUsage usage).locals) : isOwn x = false := by
  obtain ⟨v, -, rfl⟩ := exists_of_mem_locals h
  exact isOwn_escapeReserved (isIdentifier_of_mem_locals h)

theorem nodup_spelled {usage : Table String Nat} (h : (Table.keys usage).Nodup) :
    ((Table.keys usage).map escapeReserved).Nodup :=
  h.map fun _ _ => escapeReserved_injective

theorem nodup_locals {usage : Table String Nat} (h : (Table.keys usage).Nodup) :
    (ofUsage usage).locals.Nodup :=
  (((ranked_perm usage).nodup_iff.mpr (nodup_spelled h)).filter _).sublist (List.take_sublist _ _)

/-- With no more identifiers than there may be locals, all of them are locals. -/
theorem mem_locals_of_few {usage : Table String Nat} {v : String} (hv : v ∈ Table.keys usage)
    (few : ((Table.keys usage).filter fun v => isIdentifier (escapeReserved v)).length ≤ greatestLocals)
    (hx : isIdentifier (escapeReserved v) = true) : escapeReserved v ∈ (ofUsage usage).locals := by
  have count : ((ranked usage).filter isIdentifier).length ≤ greatestLocals := by
    rw [((ranked_perm usage).filter _).length_eq, List.filter_map, List.length_map]
    exact few
  rw [ofUsage, List.take_of_length_le count, List.mem_filter, (ranked_perm usage).mem_iff]
  exact ⟨List.mem_map_of_mem hv, hx⟩

/-- Of variables that are used once each, the locals are the first ones whose spelled names are identifiers. -/
theorem locals_once (names : List String) : (ofUsage (names.map fun v => (v, 1))).locals =
    ((names.map escapeReserved).filter isIdentifier).take greatestLocals := by
  have sorted : (names.map fun v => (v, 1)).mergeSort (fun a b : String × Nat => b.2 ≤ a.2) =
      names.map fun v => (v, 1) := by
    refine List.mergeSort_of_pairwise (List.pairwise_map.mpr (List.pairwise_of_forall fun _ _ => ?_))
    exact decide_eq_true (Nat.le_refl 1)
  rw [ofUsage, ranked, sorted, List.map_map]
  rfl

theorem mem_table {usage : Table String Nat} {x : String} : x ∈ (ofUsage usage).table ↔
    x ∈ (Table.keys usage).map escapeReserved ∧ x ∉ (ofUsage usage).locals := by
  rw [Table.keys, List.map_map]
  simp [ofUsage]

/-- Every variable is in one of the two storages under its spelled name, and in one only. -/
theorem locals_append_table_perm {usage : Table String Nat} (h : (Table.keys usage).Nodup) :
    ((ofUsage usage).locals ++ (ofUsage usage).table).Perm
      ((Table.keys usage).map escapeReserved) := by
  have names : (ofUsage usage).table.Nodup := by
    have spelled := nodup_spelled h
    rw [Table.keys, List.map_map] at spelled
    exact spelled.filter _
  have apart : (ofUsage usage).locals.Disjoint (ofUsage usage).table :=
    fun x hx hx' => (mem_table.mp hx').2 hx
  refine (List.perm_ext_iff_of_nodup (List.nodup_append'.mpr ⟨nodup_locals h, names, apart⟩)
    (nodup_spelled h)).mpr fun x => ?_
  rw [List.mem_append, mem_table]
  constructor
  · rintro (hx | hx)
    · obtain ⟨v, hv, rfl⟩ := exists_of_mem_locals hx
      exact List.mem_map_of_mem hv
    · exact hx.1
  · intro hx
    by_cases hlocal : x ∈ (ofUsage usage).locals
    · exact .inl hlocal
    · exact .inr ⟨hx, hlocal⟩

/-- What is done for each local and for each other name is done for each variable, by its storage. -/
theorem map_append_map_perm {α : Type} {usage : Table String Nat} (h : (Table.keys usage).Nodup)
    (f g : String → α) :
    ((ofUsage usage).locals.map f ++ (ofUsage usage).table.map g).Perm
      ((Table.keys usage).map fun v =>
        if escapeReserved v ∈ (ofUsage usage).locals then f (escapeReserved v)
        else g (escapeReserved v)) := by
  let p := ofUsage usage
  let choose (x : String) : α := if x ∈ p.locals then f x else g x
  have chosen : p.locals.map f ++ p.table.map g = (p.locals ++ p.table).map choose := by
    rw [List.map_append]
    congr 1
    · exact List.map_congr_left fun x hx => (if_pos hx).symm
    · exact List.map_congr_left fun x hx => (if_neg (mem_table.mp hx).2).symm
  have perm := (locals_append_table_perm h).map choose
  rw [← chosen, List.map_map] at perm
  exact perm

/-- What `_ENV` is behind the declarations. -/
def environment (p : Promotion) (σ : Store) : Value :=
  if environmentName ∈ p.locals then σ.locals environmentName else σ.environment

/-- The code of a handler refers to a variable where it is stored: the variable is a local, or its spelled name
cannot be written as a name, or that name is not `_ENV` itself and `_ENV` is the global table. -/
def Reaches (p : Promotion) (σ : Store) (v : String) : Prop :=
  escapeReserved v ∈ p.locals ∨ isIdentifier (escapeReserved v) = false ∨
    escapeReserved v ≠ environmentName ∧ p.environment σ = .table globals

/-- Every variable is reached if none of the identifiers is past the locals, or if none is `_ENV` and that is the
global table. -/
theorem reaches_of_few_or_absent {usage : Table String Nat} {v : String} (hv : v ∈ Table.keys usage)
    {σ : Store}
    (h : ((Table.keys usage).filter fun v => isIdentifier (escapeReserved v)).length ≤ greatestLocals ∨
      environmentName ∉ Table.keys usage ∧ σ.environment = .table globals) :
    (ofUsage usage).Reaches σ v := by
  by_cases hx : isIdentifier (escapeReserved v) = true
  · rcases h with few | ⟨absent, hσ⟩
    · exact .inl (mem_locals_of_few hv few hx)
    · have other : ∀ w ∈ Table.keys usage, escapeReserved w ≠ environmentName := by
        rintro w hw heq
        rw [← escapeReserved_injective (w := environmentName) heq] at absent
        exact absent hw
      have undeclared : environmentName ∉ (ofUsage usage).locals := by
        intro henv
        obtain ⟨w, hw, heq⟩ := exists_of_mem_locals henv
        exact other w hw heq.symm
      exact .inr (.inr ⟨other v hv, by rw [environment, if_neg undeclared, hσ]⟩)
  · exact .inr (.inl (Bool.eq_false_iff.mpr hx))

/-- Whatever function a reference to a variable stands in, it denotes the storage of the variable exactly if the
variable can be reached. -/
theorem storage_reference (usage : Table String Nat) (v : String) (call : Caller)
    (frame : Activation) (hframe : ∀ x ∈ Table.keys frame, x ∈ Compile.boundNames) (σ : Store)
    (hσ : σ.locals variableTable = .table globals) :
    (reference v).storage call (preambleNames ++ (ofUsage usage).locals) frame σ =
      some ((ofUsage usage).storage v, σ) ↔ (ofUsage usage).Reaches σ v := by
  have bound : ∀ x ∈ Table.keys frame, isOwn x = true ∧ x ≠ variableTable :=
    fun x hx => Compile.isOwn_boundNames x (hframe x hx)
  have free : ∀ x, isOwn x = false → x ∉ Table.keys frame ∧ x ∉ preambleNames := fun x hx =>
    ⟨fun h => ne_of_isOwn (bound x h).1 hx rfl, fun h => ne_of_isOwn (isOwn_preambleNames x h) hx rfl⟩
  rw [reference, storage, Reaches]
  by_cases hx : isIdentifier (escapeReserved v) = true
  · obtain ⟨hkeys, hpreamble⟩ := free _ (isOwn_escapeReserved hx)
    obtain ⟨hkeys', hpreamble'⟩ := free environmentName (by decide)
    simp only [if_pos hx, Term.storage]
    by_cases hlocal : escapeReserved v ∈ (ofUsage usage).locals
    · simp [hlocal, resolve_chunk σ hkeys (List.mem_append_right _ hlocal)]
    · have hscope : escapeReserved v ∉ preambleNames ++ (ofUsage usage).locals := by
        simp [hpreamble, hlocal]
      by_cases hname : escapeReserved v = environmentName
      · rw [hname] at hscope hlocal hx ⊢
        simp [resolve_environment σ hkeys' hscope, hlocal, hx]
      · have seen : environmentName ∈ preambleNames ++ (ofUsage usage).locals ↔
            environmentName ∈ (ofUsage usage).locals := by
          simp [hpreamble']
        simp [resolve_free σ hkeys hscope hname hkeys', environment, seen, hlocal, hx, hname,
          Value.field?_eq_entry]
  · have hlocals : escapeReserved v ∉ (ofUsage usage).locals :=
      fun h => hx (isIdentifier_of_mem_locals h)
    have htable : variableTable ∉ Table.keys frame := fun h => (bound _ h).2 rfl
    have hscope : variableTable ∈ preambleNames ++ (ofUsage usage).locals :=
      List.mem_append_left _ (by decide)
    simp [hx, hlocals, Term.storage, Term.eval, resolve_chunk σ htable hscope, Store.read, hσ]

end Promotion
end GameScript
