import GameScript.Proofs.Compile.Usage

/-! How often a variable is used. The sites of a variable are the reads and writes of it in a command and, once for
each reference, in the blocks that the command refers to. Where the command compiles, each site counts as one use,
whether or not what is written there gets into the text. -/

namespace GameScript

open Lua

namespace Compile

/-- The variable that an action reads or writes. Dotted names are no variables. -/
def Action.counts? : Action → Option String
  | read name | write name => if isDotted name then none else some name
  | call | unknownExpression _ | unknownCommand _ | enter _ _ => none

/-- Actions have so many sites of a variable: those among them, and for each block that one of them enters the sites
in the commands of the block. -/
inductive Sites (blocks : List Block) (v : String) : List Action → Nat → Prop where
  | none : Sites blocks v [] 0
  | site {a : Action} {as : List Action} {n : Nat} : a.counts? = some v → Sites blocks v as n →
      Sites blocks v (a :: as) (n + 1)
  | other {a : Action} {as : List Action} {n : Nat} : (∀ place i, a ≠ .enter place i) → a.counts? ≠ some v →
      Sites blocks v as n → Sites blocks v (a :: as) n
  | inside {place : Place} {i m n : Nat} {cs : Block} {as : List Action} : blocks[i]? = some cs →
      Sites blocks v (cs.flatMap Command.actions) m → Sites blocks v as n →
      Sites blocks v (.enter place i :: as) (m + n)

theorem Sites.unique {blocks : List Block} {v : String} {as : List Action} {m n : Nat} (hm : Sites blocks v as m)
    (hn : Sites blocks v as n) : m = n := by
  induction hm generalizing n with
  | none =>
    cases hn
    rfl
  | site hv _ ih =>
    cases hn with
    | site _ hn => rw [ih hn]
    | other _ hne _ => exact absurd hv hne
    | inside => cases hv
  | other hplain hne _ ih =>
    cases hn with
    | site hv _ => exact absurd hv hne
    | other _ _ hn => exact ih hn
    | inside => exact absurd rfl (hplain _ _)
  | inside hcs _ _ ihbody ih =>
    cases hn with
    | site hv _ => cases hv
    | other hplain _ _ => exact absurd rfl (hplain _ _)
    | inside hcs' hbody hn =>
      obtain rfl := Option.some.inj (hcs.symm.trans hcs')
      rw [ihbody hbody, ih hn]

variable {bodies : BodyCompiler} {s : Scope} {v : String}

/-! ### What one action records -/

theorem count_readVariable (name : String) :
    (readVariable name).log.count (.use v) = if (Action.read name).counts? = some v then 1 else 0 := by
  rw [readVariable_eq]
  cases h : Accessor.ofName? name with
  | some a =>
    have dotted := isDotted_of_ofName? h
    have declared : (a.declaration?.toList.map Entry.declare).count (.use v) = 0 :=
      List.count_eq_zero.mpr fun hmem => by simp at hmem
    simpa [Action.counts?, dotted] using declared
  | none => by_cases hdot : isDotted name <;> simp [Action.counts?, hdot, List.count_singleton]

theorem count_writeTarget (name : String) :
    (writeTarget name).log.count (.use v) = if (Action.write name).counts? = some v then 1 else 0 := by
  rw [writeTarget]
  by_cases h : isReservedName name
  · obtain ⟨a, ha⟩ := Option.isSome_iff_exists.mp h
    rw [if_pos h, Action.counts?, isDotted_of_ofName? ha]
    rfl
  · rw [if_neg h]
    exact count_readVariable name

theorem Action.count_run {a : Action} (ha : ∀ place i, a ≠ .enter place i) :
    (a.run bodies s).log.count (.use v) = if a.counts? = some v then 1 else 0 := by
  cases a with
  | read name => exact count_readVariable name
  | write name => exact count_writeTarget name
  | enter place i => exact absurd rfl (ha place i)
  | _ => simp [Action.run, Action.counts?, Outcome.declare, Outcome.note, Outcome.entry]

/-! ### Blocks and commands -/

/-- Whatever block a compiler of blocks compiles, it records each site in the block as a use. -/
def RecordsSites (v : String) (bodies : BodyCompiler) : Prop :=
  ∀ (s : Scope) (isFunction : Bool) (index : Nat) (t : String), (bodies s isFunction index).result = .ok t →
    ∃ cs, s.blocks[index]? = some cs ∧
      Sites s.blocks v (cs.flatMap Command.actions) ((bodies s isFunction index).log.count (.use v))

/-- Actions that succeed record their sites. -/
theorem RecordsSites.runAll (hbodies : RecordsSites v bodies) : {as : List Action} →
    (Action.runAll bodies s as).result = .ok () →
      Sites s.blocks v as ((Action.runAll bodies s as).log.count (.use v))
  | [], _ => .none
  | a :: as, h => by
    cases hr : (a.run bodies s).result with
    | error e =>
      rw [Action.runAll_cons_error hr] at h
      cases h
    | ok u =>
      rw [Action.runAll_cons_ok hr] at h ⊢
      have rest := hbodies.runAll h
      rw [List.count_append]
      by_cases hplain : ∀ place i, a ≠ .enter place i
      · rw [Action.count_run hplain]
        split_ifs with hv
        · rw [Nat.add_comm]
          exact .site hv rest
        · rw [Nat.zero_add]
          exact .other hplain hv rest
      · obtain ⟨place, i, rfl⟩ : ∃ place i, a = .enter place i := by simpa using hplain
        obtain ⟨t, ht⟩ := Outcome.effects_result_eq_ok.mp hr
        obtain ⟨cs, hcs, inside⟩ := hbodies _ _ i t ht
        rw [Place.blocks_scope] at hcs inside
        exact .inside hcs inside rest

/-- What performs actions and has a result records their sites. -/
theorem RecordsSites.performs (hbodies : RecordsSites v bodies) {α : Type} {x : Outcome α} {as : List Action}
    (hx : Performs bodies s as x) {r : α} (h : x.result = .ok r) : Sites s.blocks v as (x.log.count (.use v)) := by
  rw [hx.log_eq]
  exact hbodies.runAll (hx.ok_iff.mp ⟨r, h⟩)

/-- The declarations of a function, which stay in it, are no uses. -/
theorem count_blockWith {isFunction : Bool} {cs : Block} : (blockWith bodies s isFunction cs).log.count (.use v) =
    (commandsWith bodies s cs).log.count (.use v) := by
  rw [blockWith_log]
  split
  · exact List.count_filter rfl
  · rfl

theorem recordsSites_bodyWithin (v : String) : (levels : Nat) → RecordsSites v (bodyWithin levels)
  | 0, _, _, _, _, h => by
    obtain ⟨n, _, hn, -⟩ := bodyWithin_eq_ok h
    cases hn
  | levels + 1, s, isFunction, index, t, h => by
    obtain ⟨n, cs, hn, hcs, heq⟩ := bodyWithin_eq_ok h
    obtain rfl : levels = n := Nat.succ.inj hn
    rw [heq] at h ⊢
    obtain ⟨lines, hlines⟩ := exists_of_blockWith_eq_ok h
    rw [count_blockWith]
    exact ⟨cs, hcs, (recordsSites_bodyWithin v levels).performs (commandsWith_performs cs) hlines⟩

theorem recordsSites_body (v : String) : RecordsSites v body :=
  fun s isFunction index t h => recordsSites_bodyWithin v s.blocks.length s isFunction index t h

/-- The uses of each variable rise by its sites in a command that compiles. What is recorded hangs on the arguments of
an operation and not on which one it is, which decides on the arguments whose texts are kept. -/
theorem usage_sites (c : Context) :
    (∀ cmd t c', c.run (command · cmd) = (.ok t, c') → ∀ v, ∃ n,
      (∀ m, Sites c.scope.blocks v cmd.actions m ↔ m = n) ∧ c'.ledger.uses v = c.ledger.uses v + n) ∧
    (∀ op op' args, (c.run (command · (.effect op args))).2 = (c.run (command · (.effect op' args))).2) ∧
    ∀ op op' args, (c.run (expr · (.value op args))).2 = (c.run (expr · (.value op' args))).2 := by
  refine ⟨fun cmd t c' h v => ?_, fun op op' args => ?_, fun op op' args => ?_⟩
  · obtain ⟨hresult, rfl⟩ := Prod.mk.inj h
    have sites := (recordsSites_body v).performs (commandWith_performs cmd) hresult
    exact ⟨_, fun m => ⟨fun hm => hm.unique sites, fun hm => hm ▸ sites⟩, Ledger.uses_recordAll v _ _⟩
  · have log : ∀ op, (command c.scope (.effect op args)).log =
        (Action.runAll body c.scope (Expr.argumentActions args)).log :=
      fun op => (commandWith_performs (.effect op args)).log_eq
    exact congrArg c.record ((log op).trans (log op').symm)
  · have log : ∀ op, (expr c.scope (.value op args)).log =
        (Action.runAll body c.scope (Expr.argumentActions args)).log :=
      fun op => (expression_performs (.value op args)).log_eq
    exact congrArg c.record ((log op).trans (log op').symm)

/-- A conditional that refers to one block twice. The block uses a variable in a pair that its call has no place for,
and writes it. -/
theorem usage_sites_shared :
    let shared : Block := [.effect .sound [.pair (.read "x") .nil], .increment "x"]
    let c : Context := ⟨(Scope.initial .standard).withBlocks [shared], .empty⟩
    let cmd : Command := .cond ⟨.eq, .string "x", .read "event.x"⟩ 0 [.otherwise 0]
    let t := "  if x == __event_x then\n    __pulp.__fn_sound()\n    x += 1\n" ++
      "  else\n    __pulp.__fn_sound()\n    x += 1\n  end\n"
    (c.run (command · cmd)).1 = .ok t ∧ Sites c.scope.blocks "x" cmd.actions 5 ∧
      (c.run (command · cmd)).2.ledger.uses "x" = c.ledger.uses "x" + 5 := by
  intro shared c cmd t
  have compiled : (c.run (command · cmd)).1 = .ok t := by decide +kernel
  have actions : cmd.actions = [.read "x", .read "event.x", .enter .branch 0, .enter .branch 0] := by decide
  have inside : Sites c.scope.blocks "x" [.read "x", .write "x"] 2 := .site rfl (.site rfl .none)
  have bodies : Sites c.scope.blocks "x" [.enter .branch 0, .enter .branch 0] (2 + (2 + 0)) :=
    .inside rfl inside (.inside rfl inside .none)
  have sites : Sites c.scope.blocks "x" cmd.actions 5 := by
    rw [actions]
    exact .site rfl (.other (by simp) (by decide) bodies)
  obtain ⟨n, exact, rises⟩ := (usage_sites c).1 cmd t _ (Prod.ext compiled rfl) "x"
  obtain rfl : 5 = n := (exact 5).mp sites
  exact ⟨compiled, sites, rises⟩

end Compile
end GameScript
