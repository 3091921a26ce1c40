import GameScript.Proofs.Assembly
import GameScript.Proofs.Ledger
import Mathlib.Data.List.Nodup

/-! The declarations of a function. A function declares at its top what the actions that stand directly
in it need, in ascending order and each name once: the object that calls dispatch on is the same in all
of a function, and every accessor has one declaration. -/

namespace GameScript

open Lua

/-! ### Ascending lists -/

theorem mem_insertAscending {x y : String} {l : List String} :
    y ∈ insertAscending x l ↔ y = x ∨ y ∈ l := by
  induction l with
  | nil => simp [insertAscending]
  | cons z zs ih =>
    rw [insertAscending]
    split_ifs with hlt heq
    · simp
    · simp [heq]
    · simp only [List.mem_cons, ih]
      tauto

theorem pairwise_insertAscending {x : String} {l : List String} (h : l.Pairwise (· < ·)) :
    (insertAscending x l).Pairwise (· < ·) := by
  induction l with
  | nil => simp [insertAscending]
  | cons z zs ih =>
    obtain ⟨hz, hzs⟩ := List.pairwise_cons.mp h
    rw [insertAscending]
    split_ifs with hlt heq
    · refine List.pairwise_cons.mpr ⟨fun y hy => ?_, h⟩
      rcases List.mem_cons.mp hy with rfl | hy
      · exact hlt
      · exact String.lt_trans hlt (hz y hy)
    · exact h
    · refine List.pairwise_cons.mpr ⟨fun y hy => ?_, ih hzs⟩
      rcases mem_insertAscending.mp hy with rfl | hy
      · exact String.not_le.mp fun hle => heq (String.le_antisymm hle (String.not_lt.mp hlt))
      · exact hz y hy

theorem mem_foldl_insertAscending {d : String} : {ds l : List String} →
    (d ∈ ds.foldl (fun l x => insertAscending x l) l ↔ d ∈ ds ∨ d ∈ l)
  | [], l => by simp
  | x :: ds, l => by
    rw [List.foldl_cons, mem_foldl_insertAscending, mem_insertAscending, List.mem_cons]
    tauto

theorem pairwise_foldl_insertAscending : {ds l : List String} → l.Pairwise (· < ·) →
    (ds.foldl (fun l x => insertAscending x l) l).Pairwise (· < ·)
  | [], _, h => h
  | x :: ds, l, h => by
    rw [List.foldl_cons]
    exact pairwise_foldl_insertAscending (pairwise_insertAscending h)

theorem mem_declarations {log : List Entry} {d : String} :
    d ∈ declarations log ↔ .declare d ∈ log := by
  rw [declarations, mem_foldl_insertAscending]
  simp only [List.mem_filterMap, List.not_mem_nil, or_false]
  constructor
  · rintro ⟨e, he, hd⟩
    cases e <;> simp [Entry.declaration?] at hd
    exact hd ▸ he
  · intro h
    exact ⟨_, h, rfl⟩

theorem pairwise_declarations (log : List Entry) : (declarations log).Pairwise (· < ·) :=
  pairwise_foldl_insertAscending .nil

/-! ### What stands directly in a function -/

namespace Compile

/-- The declaration that an action asks the function around it for. -/
def Action.declaration? (target : String) : Action → Option String
  | call => some (objectDeclaration target)
  | read name => (Accessor.ofName? name).bind Accessor.declaration?
  | write _ | unknownExpression _ | unknownCommand _ | enter _ _ => none

/-- An action stands directly in the function of some commands: in one of them, or in a branch or a
loop of theirs at any depth, but not in a function inside of them. -/
inductive Direct (blocks : List Block) : Block → Action → Prop where
  | here {cs : Block} {c : Command} {a : Action} : c ∈ cs → a ∈ c.actions → Direct blocks cs a
  | branch {cs body : Block} {c : Command} {i : Nat} {a : Action} : c ∈ cs →
      .enter .branch i ∈ c.actions → blocks[i]? = some body → Direct blocks body a →
      Direct blocks cs a

variable {bodies : BodyCompiler} {s : Scope} {d : String}

theorem declare_mem_readVariable {name : String} :
    .declare d ∈ (readVariable name).log ↔
      (Accessor.ofName? name).bind Accessor.declaration? = some d := by
  rw [readVariable_eq]
  cases Accessor.ofName? name with
  | none => simp only [Option.bind_none]; split <;> simp
  | some a => cases h : a.declaration? <;> simp [h, eq_comm]

theorem declare_not_mem_writeTarget {name : String} : .declare d ∉ (writeTarget name).log := by
  rw [writeTarget_eq]
  split
  · simp
  · split <;> simp

theorem Action.declare_mem_run {a : Action} :
    .declare d ∈ (a.run bodies s).log ↔ a.declaration? s.target = some d ∨
      ∃ place index, a = .enter place index ∧
        .declare d ∈ (bodies (place.scope s) place.isFunction index).log := by
  cases a with
  | read name => simp [Action.run, Action.declaration?, declare_mem_readVariable]
  | write name => simp [Action.run, Action.declaration?, declare_not_mem_writeTarget]
  | call =>
    simp [Action.run, Action.declaration?, Outcome.declare, Outcome.entry, eq_comm]
  | enter place index => simp [Action.run, Action.declaration?]
  | _ => simp [Action.run, Action.declaration?, Outcome.note, Outcome.entry]

/-- A block that compiles is there, and is compiled with one level less. -/
theorem bodyWithin_eq_ok {levels index : Nat} {isFunction : Bool} {t : String}
    (h : (bodyWithin levels s isFunction index).result = .ok t) :
    ∃ n cs, levels = n + 1 ∧ s.blocks[index]? = some cs ∧
      bodyWithin levels s isFunction index = blockWith (bodyWithin n) s isFunction cs := by
  cases hcs : s.blocks[index]? with
  | none =>
    rw [bodyWithin_missing hcs] at h
    cases h
  | some cs =>
    cases levels with
    | zero =>
      rw [bodyWithin, Scope.blockAt, hcs] at h
      cases h
    | succ n => exact ⟨n, cs, rfl, rfl, bodyWithin_succ hcs⟩

/-- Commands that compile ask for what the actions directly in them ask for: the target of calls is
the same in every branch and loop, and a function inside of them asks for nothing. -/
theorem declare_mem_commandsWith {levels : Nat} {cs : Block} {t : String}
    (h : (commandsWith (bodyWithin levels) s cs).result = .ok t) :
    .declare d ∈ (commandsWith (bodyWithin levels) s cs).log ↔
      ∃ a, Direct s.blocks cs a ∧ a.declaration? s.target = some d := by
  induction levels using Nat.strongRecOn generalizing s cs t with
  | ind levels ih =>
    have performs : Performs (bodyWithin levels) s (cs.flatMap Command.actions)
        (commandsWith (bodyWithin levels) s cs) := commandsWith_performs cs
    -- entering a branch that stands here
    have branch : ∀ i, .enter .branch i ∈ cs.flatMap Command.actions → ∃ body,
        s.blocks[i]? = some body ∧ (.declare d ∈ (bodyWithin levels (s.indented 1) false i).log ↔
          ∃ a, Direct s.blocks body a ∧ a.declaration? s.target = some d) := by
      intro i hi
      obtain ⟨t, ht⟩ : ∃ t, (bodyWithin levels (s.indented 1) false i).result = .ok t :=
        Outcome.effects_result_eq_ok.mp (performs.run_eq_ok h _ hi)
      obtain ⟨n, body, rfl, hbody, heq⟩ := bodyWithin_eq_ok ht
      refine ⟨body, hbody, ?_⟩
      rw [heq] at ht ⊢
      exact ih n (Nat.lt_succ_self n) ht
    rw [performs.mem_log h]
    constructor
    · rintro ⟨a, ha, hd⟩
      obtain ⟨c, hc, hac⟩ := List.mem_flatMap.mp ha
      rcases Action.declare_mem_run.mp hd with hd | ⟨place, i, rfl, hd⟩
      · exact ⟨a, .here hc hac, hd⟩
      cases place with
      | branch =>
        obtain ⟨body, hbody, hiff⟩ := branch i ha
        obtain ⟨a, hdirect, hd⟩ := hiff.mp hd
        exact ⟨a, .branch hc hac hbody hdirect, hd⟩
      | callback | told => exact absurd hd declare_not_mem_bodyWithin_function
    · rintro ⟨a, hdirect, hd⟩
      cases hdirect with
      | here hc hac =>
        exact ⟨a, List.mem_flatMap.mpr ⟨_, hc, hac⟩, Action.declare_mem_run.mpr (.inl hd)⟩
      | @branch _ body _ i _ hc hac hbody hdirect =>
        have ha := List.mem_flatMap.mpr ⟨_, hc, hac⟩
        obtain ⟨body', hbody', hiff⟩ := branch i ha
        obtain rfl : body' = body := Option.some.inj (hbody'.symm.trans hbody)
        refine ⟨_, ha, Action.declare_mem_run.mpr (.inr ⟨.branch, i, rfl, ?_⟩)⟩
        exact hiff.mpr ⟨a, hdirect, hd⟩

/-- Actions look at blocks only in scopes of their own script. -/
theorem Action.runAll_body (as : List Action) :
    Action.runAll body s as = Action.runAll (bodyWithin s.blocks.length) s as := by
  induction as with
  | nil => rfl
  | cons a as ih =>
    have run : a.run body s = a.run (bodyWithin s.blocks.length) s := by
      cases a with
      | enter place index => rw [Action.run, Action.run, body, Place.blocks_scope]
      | _ => rfl
    rw [Action.runAll, Action.runAll, ih, run]

theorem declare_mem_commands {cs : Block} {t : String}
    (h : (commandsWith body s cs).result = .ok t) :
    .declare d ∈ (commandsWith body s cs).log ↔
      ∃ a, Direct s.blocks cs a ∧ a.declaration? s.target = some d := by
  have performs : Performs body s (cs.flatMap Command.actions) (commandsWith body s cs) :=
    commandsWith_performs cs
  have within : Performs (bodyWithin s.blocks.length) s (cs.flatMap Command.actions)
      (commandsWith (bodyWithin s.blocks.length) s cs) := commandsWith_performs cs
  obtain ⟨t', ht'⟩ := within.ok_iff.mpr (Action.runAll_body _ ▸ performs.ok_iff.mp ⟨t, h⟩)
  rw [performs.log_eq, Action.runAll_body, ← within.log_eq]
  exact declare_mem_commandsWith ht'

/-! ### The names that are declared -/

/-- The local that a declaration declares: what stands between its first two blanks. -/
def declaredName (d : String) : String :=
  String.ofList ((d.toList.drop "local ".length).takeWhile fun c => c != ' ')

theorem declaredName_objectDeclaration (target : String) :
    declaredName (objectDeclaration target) = "__evobj" := by
  have chars : (objectDeclaration target).toList =
      'l' :: 'o' :: 'c' :: 'a' :: 'l' :: ' ' :: ("__evobj".toList ++ ' ' :: '=' :: ' ' :: target.toList) := by
    rw [objectDeclaration, String.toList_append]
    rfl
  rw [declaredName, chars]
  rfl

/-- No two declarations of accessors declare the same local, and none that of the object that calls
dispatch on. -/
theorem Accessor.declaredName_injOn : ∀ x ∈ Accessor.table, ∀ d ∈ x.2.declaration?,
    declaredName d ≠ "__evobj" ∧
      ∀ y ∈ Accessor.table, ∀ d' ∈ y.2.declaration?, declaredName d = declaredName d' → d = d' := by
  decide +kernel

theorem declaredName_ne_of_accessor {name : String} (h : (Accessor.ofName? name).bind
    Accessor.declaration? = some d) : declaredName d ≠ "__evobj" := by
  obtain ⟨x, hx, hd⟩ := Option.bind_eq_some_iff.mp h
  exact (Accessor.declaredName_injOn _ (mem_table_of_ofName? hx) d hd).1

/-- What the actions of one function ask for is told apart by the names that are declared. -/
theorem Action.declaredName_inj {target : String} {a a' : Action} {d d' : String}
    (h : a.declaration? target = some d) (h' : a'.declaration? target = some d')
    (hname : declaredName d = declaredName d') : d = d' := by
  cases a with
  | call =>
    obtain rfl : objectDeclaration target = d := Option.some.inj h
    cases a' with
    | call => exact Option.some.inj h'
    | read name =>
      rw [declaredName_objectDeclaration] at hname
      exact absurd hname.symm (declaredName_ne_of_accessor h')
    | _ => cases h'
  | read name =>
    cases a' with
    | call =>
      obtain rfl : objectDeclaration target = d' := Option.some.inj h'
      rw [declaredName_objectDeclaration] at hname
      exact absurd hname (declaredName_ne_of_accessor h)
    | read name' =>
      obtain ⟨x, hx, hd⟩ := Option.bind_eq_some_iff.mp h
      obtain ⟨y, hy, hd'⟩ := Option.bind_eq_some_iff.mp h'
      exact (Accessor.declaredName_injOn _ (mem_table_of_ofName? hx) d hd).2 _
        (mem_table_of_ofName? hy) d' hd' hname
    | _ => cases h'
  | _ => cases h

/-- The declarations `ds` at the top of the function `t` that the commands `cs` become in a context. -/
structure Heads (c : Context) (cs : Block) (t : String) (ds : List String) : Prop where
  text : ∃ lines, (commandsWith body c.scope cs).result = .ok lines ∧
    t = declarationLines c.scope ds ++ lines
  ascending : ds.Pairwise (· < ·)
  names : (ds.map declaredName).Nodup
  /-- The declarations are those that the actions directly in the function ask for. -/
  complete : ∀ d, d ∈ ds ↔ ∃ a, Direct c.scope.blocks cs a ∧ a.declaration? c.scope.target = some d
  /-- They are what a function that is opened for the commands and closed after them has scheduled. -/
  closed : (c.ledger.openFunction.recordAll (commandsWith body c.scope cs).log).closeFunction =
    (ds, (c.run fun s => block s true cs).2.ledger)
  /-- The functions around it get no declaration. -/
  around : (c.run fun s => block s true cs).2.ledger.functions = c.ledger.functions

theorem heads_of_block {c : Context} {cs : Block} {t : String}
    (h : (block c.scope true cs).result = .ok t) :
    Heads c cs t (declarations (commandsWith body c.scope cs).log) := by
  obtain ⟨lines, hlines, ht⟩ := blockWith_function_eq_ok.mp h
  have log : (block c.scope true cs).log =
      (commandsWith body c.scope cs).log.filter fun e => e.declaration?.isNone := by
    rw [block, blockWith_log, if_pos rfl]
  have complete : ∀ d, d ∈ declarations (commandsWith body c.scope cs).log ↔
      ∃ a, Direct c.scope.blocks cs a ∧ a.declaration? c.scope.target = some d := by
    intro d
    rw [mem_declarations]
    exact declare_mem_commands hlines
  refine ⟨⟨lines, hlines, ht⟩, pairwise_declarations _, ?_, complete, ?_, ?_⟩
  · refine List.Nodup.map_on ?_ ((pairwise_declarations _).imp fun hlt heq => ?_)
    · intro d hd d' hd' hname
      obtain ⟨a, -, ha⟩ := (complete d).mp hd
      obtain ⟨a', -, ha'⟩ := (complete d').mp hd'
      exact Action.declaredName_inj ha ha' hname
    · exact String.lt_irrefl _ (heq ▸ hlt)
  · rw [Ledger.closeFunction_recordAll_openFunction, ← log]
    rfl
  · refine Ledger.functions_recordAll c.ledger _ ?_
    intro e he
    rw [log] at he
    simpa using (List.mem_filter.mp he).2

theorem head?_toList_append {a b : String} {c : Char} (h : a.toList.head? = some c) :
    (a ++ b).toList.head? = some c := by
  rw [String.toList_append, List.head?_append, h]
  rfl

theorem head?_strayAlias (declaration : String) :
    (Diagnostic.strayAlias declaration).message.toList.head? = some 'a' :=
  head?_toList_append (by decide +kernel)

theorem head?_message {d : Diagnostic} (h : (Entry.note d).OfUnit) :
    ∃ c, d.message.toList.head? = some c ∧ c ≠ 'a' := by
  cases d with
  | strayAlias _ | remark _ => exact h.elim
  | unknownCommand tag | unknownExpression tag =>
    exact ⟨'u', head?_toList_append (by decide +kernel), by decide⟩
  | duplicateScript kind id =>
    exact ⟨'d', head?_toList_append (head?_toList_append (head?_toList_append (by decide +kernel))),
      by decide⟩
  | unknownScript kind id =>
    exact ⟨'u', head?_toList_append (head?_toList_append (head?_toList_append (by decide +kernel))),
      by decide⟩
  | unknownFrame tile frame =>
    exact ⟨'t', head?_toList_append (head?_toList_append (head?_toList_append (by decide +kernel))),
      by decide⟩

/-- What the unit records is told unlike a declaration outside of the functions: the messages differ
in their first character. -/
theorem message_ne_strayAlias {e : Entry} (h : e.OfUnit) (declaration : String) :
    e.message? ≠ some (Diagnostic.strayAlias declaration).message := by
  intro heq
  cases e with
  | use name | candidate c => cases heq
  | declare d => exact h
  | note d =>
    obtain ⟨c, hc, hne⟩ := head?_message h
    rw [Option.some.inj heq, head?_strayAlias] at hc
    exact hne (Option.some.inj hc).symm

/-- A function declares at its top, in ascending order and each local once, what the calls and the
reads directly in it ask for, and nothing in the functions around it; so a game never has a
declaration outside of its functions. -/
theorem function_declarations :
    (∀ (c : Context) (cs : Block) (t : String), (block c.scope true cs).result = .ok t →
      ∃ ds, Heads c cs t ds) ∧
    ∀ (options : Options) (g : Game) (d : String),
      (Diagnostic.strayAlias d).message ∉ (g.ledger options).diagnostics := by
  refine ⟨fun c cs t h => ⟨_, heads_of_block h⟩, fun options g d h => ?_⟩
  rcases Ledger.mem_diagnostics_recordAll h with h | ⟨e, he, h⟩
  · cases h
  · exact message_ne_strayAlias (g.outcome_records options e he) d h

/-- A tell and a call after it: each of the two functions has its own object. -/
theorem function_declarations_told :
    let s : Scope := { Scope.initial .standard with blocks := [[.call (.string "hit")]] }
    let cs : Block := [.tell .room 0, .call (.string "hit")]
    let told := "  do --tell event.room to\n    local __actor = event.room\n    if __actor then\n" ++
      "      local __evobj = __actor.script or __pulp.EMPTY\n" ++
      "      ;(__evobj.hit or __evobj.any)(__evobj, __actor, event, \"hit\") -- call \"hit\"\n" ++
      "    end\n  end\n"
    let t := "  local __evobj = __pulp.EMPTY\n" ++ told ++
      "  ;(__evobj.hit or __evobj.any)(__evobj, __actor, event, \"hit\") -- call \"hit\"\n"
    (block s true cs).result = .ok t ∧ ∃ ds, Heads ⟨s, .empty⟩ cs t ds :=
  have compiles := by decide +kernel
  ⟨compiles, function_declarations.1 ⟨_, .empty⟩ _ _ compiles⟩

end Compile
end GameScript
