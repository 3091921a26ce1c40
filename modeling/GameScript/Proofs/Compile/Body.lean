import GameScript.Proofs.Compile.Action
import GameScript.Proofs.Script.Reference

/-! Bodies: what the blocks of a script record and how they fail. The actions of a block only read and
write names, report unknown tags and enter blocks that the block refers to, so by induction on the
levels of blocks in one another every entry of a log is one that an action makes by itself, and where
no block reaches itself a failure is a write to a name that the runtime owns. -/

namespace GameScript

open Compile

/-! ### The actions of syntax -/

/-- The actions that an expression may do, given the blocks that it refers to. -/
def Compile.Action.OfExpression (refs : List Nat) : Action → Prop
  | .read _ | .unknownExpression _ => True
  | .enter place index => place = .callback ∧ index ∈ refs
  | .write _ | .call | .unknownCommand _ => False

namespace Compile.Action.OfExpression

theorem mono {refs refs' : List Nat} (h : refs ⊆ refs') :
    {a : Action} → a.OfExpression refs → a.OfExpression refs'
  | .read _, _ | .unknownExpression _, _ => trivial
  | .enter _ _, ⟨hplace, hindex⟩ => ⟨hplace, h hindex⟩

end Compile.Action.OfExpression

namespace Expr

mutual

theorem actions_ofExpression : (e : Expr) → ∀ a ∈ e.actions, a.OfExpression e.refs
  | .string _ | .number _ | .bool _ | .nil | .tile _ _ => by simp [actions]
  | .read _ | .pair _ _ | .rect _ | .unknown _ => by simp [actions, Action.OfExpression]
  | .block index => by simp [actions, Action.OfExpression, refs]
  | .format parts => by
      intro a ha
      obtain ⟨as, has, ha⟩ := List.mem_flatten.mp ha
      exact eachActions_ofExpression parts as has a ha
  | .embed inner => actions_ofExpression inner
  | .value _ args => argumentActions_ofExpression args
  | .nameOf args => by
      have h := argumentActions_ofExpression args
      cases args with
      | nil => exact h
      | cons e args =>
        cases e with
        | pair x y =>
          intro a ha
          exact h a (List.mem_append_left _ ha)
        | _ => exact h

theorem eachActions_ofExpression : (es : List Expr) →
    ∀ as ∈ eachActions es, ∀ a ∈ as, a.OfExpression (listRefs es)
  | [] => by simp [eachActions]
  | e :: es => by
      intro as has a ha
      rcases List.mem_cons.mp has with rfl | has
      · exact (actions_ofExpression e a ha).mono (List.subset_append_left _ _)
      · exact (eachActions_ofExpression es as has a ha).mono (List.subset_append_right _ _)

theorem argumentActions_ofExpression : (es : List Expr) →
    ∀ a ∈ argumentActions es, a.OfExpression (listRefs es)
  | [] => by simp [argumentActions]
  | e :: es => by
      have first := actions_ofExpression e
      have rest := argumentActions_ofExpression es
      intro a ha
      cases e with
      | pair x y =>
        rcases List.mem_append.mp ha with ha | ha
        · rcases List.mem_append.mp ha with ha | ha
          · exact (actions_ofExpression x a ha).mono (by simp [listRefs, refs])
          · exact (actions_ofExpression y a ha).mono (by simp [listRefs, refs])
        · exact (rest a ha).mono (List.subset_append_right _ _)
      | rect parts =>
        rcases List.mem_append.mp ha with ha | ha
        · obtain ⟨as, has, ha⟩ := List.mem_flatten.mp ha
          exact (eachActions_ofExpression parts as (List.mem_of_mem_take has) a ha).mono
            (List.subset_append_left _ _)
        · exact (rest a ha).mono (List.subset_append_right _ _)
      | _ =>
        rcases List.mem_append.mp ha with ha | ha
        · exact (first a ha).mono (List.subset_append_left _ _)
        · exact (rest a ha).mono (List.subset_append_right _ _)

end

end Expr
def Command.target? : Command → Option String
  | .assign target _ _ | .increment target | .decrement target => some target
  | _ => none

/-- The actions that a command may do, given the blocks that it refers to and the variable that it
assigns. -/
def Compile.Action.OfCommand (refs : List Nat) (target? : Option String) : Action → Prop
  | .write name => target? = some name
  | .enter _ index => index ∈ refs
  | .read _ | .call | .unknownExpression _ | .unknownCommand _ => True

namespace Compile.Action.OfExpression

theorem ofCommand {refs : List Nat} {target? : Option String} :
    {a : Action} → a.OfExpression refs → a.OfCommand refs target?
  | .read _, _ | .unknownExpression _, _ => trivial
  | .enter _ _, ⟨_, hindex⟩ => hindex

end Compile.Action.OfExpression

namespace Compile.Action.OfCommand

theorem mono {refs refs' : List Nat} {target? : Option String} (h : refs ⊆ refs') :
    {a : Action} → a.OfCommand refs target? → a.OfCommand refs' target?
  | .write _, htarget => htarget
  | .enter _ _, hindex => h hindex
  | .read _, _ | .call, _ | .unknownExpression _, _ | .unknownCommand _, _ => trivial

end Compile.Action.OfCommand

theorem Comparison.actions_ofExpression (c : Comparison) :
    ∀ a ∈ c.actions, a.OfExpression c.refs := by
  intro a ha
  obtain ⟨op, left, right⟩ := c
  rcases List.mem_append.mp ha with ha | ha
  · refine Action.OfExpression.mono (List.subset_append_left _ _) (a := a) ?_
    cases left with
    | string name =>
      simp only at ha
      split at ha
      · rw [List.mem_singleton.mp ha]
        trivial
      · cases ha
    | _ => exact Expr.actions_ofExpression _ a ha
  · exact (Expr.actions_ofExpression right a ha).mono (List.subset_append_right _ _)

theorem Clause.actions_ofCommand (c : Clause) {target? : Option String} :
    ∀ a ∈ c.actions, a.OfCommand c.refs target? := by
  intro a ha
  cases c with
  | elseIf c block =>
    rcases List.mem_append.mp ha with ha | ha
    · exact ((c.actions_ofExpression a ha).mono (List.subset_append_left _ _)).ofCommand
    · rw [List.mem_singleton.mp ha]
      exact List.mem_append_right _ (List.mem_singleton.mpr rfl)
  | otherwise block =>
    rw [List.mem_singleton.mp ha]
    exact List.mem_singleton.mpr rfl

theorem TellTarget.actions_ofCommand (t : TellTarget) (block : Nat) :
    ∀ a ∈ t.actions block, a.OfCommand (t.refs ++ [block]) none := by
  intro a ha
  cases t with
  | place x y =>
    rcases List.mem_append.mp ha with ha | ha
    · rcases List.mem_append.mp ha with ha | ha
      · exact ((Expr.actions_ofExpression y a ha).mono (by simp [TellTarget.refs])).ofCommand
      · exact ((Expr.actions_ofExpression x a ha).mono (by simp [TellTarget.refs])).ofCommand
    · rw [List.mem_singleton.mp ha]
      exact List.mem_append_right _ (List.mem_singleton.mpr rfl)
  | named name =>
    have h := Expr.argumentActions_ofExpression [name, .block block] a ha
    simp only [Expr.listRefs, Expr.refs, List.append_nil] at h
    exact h.ofCommand
  | _ =>
    rw [List.mem_singleton.mp ha]
    exact List.mem_append_right _ (List.mem_singleton.mpr rfl)

/-- A command writes only the variable that it assigns and enters only blocks that it refers to. -/
theorem Command.actions_ofCommand (c : Command) : ∀ a ∈ c.actions, a.OfCommand c.refs c.target? := by
  intro a ha
  cases c with
  | noop | comment | continuedComment | done => cases ha
  | assign target op value =>
    rcases List.mem_cons.mp ha with rfl | ha
    · rfl
    · exact (Expr.actions_ofExpression value a ha).ofCommand
  | increment target | decrement target =>
    rw [List.mem_singleton.mp ha]
    rfl
  | cond c block clauses =>
    rcases List.mem_append.mp ha with ha | ha
    · exact ((c.actions_ofExpression a ha).mono (List.subset_append_left _ _)).ofCommand
    rcases List.mem_cons.mp ha with rfl | ha
    · exact List.mem_append_right _ List.mem_cons_self
    · obtain ⟨clause, hclause, ha⟩ := List.mem_flatMap.mp ha
      refine (clause.actions_ofCommand a ha).mono fun i hi => List.mem_append_right _ ?_
      exact List.mem_cons_of_mem _ (List.mem_flatMap.mpr ⟨clause, hclause, hi⟩)
  | loop c block =>
    rcases List.mem_append.mp ha with ha | ha
    · exact ((c.actions_ofExpression a ha).mono (List.subset_append_left _ _)).ofCommand
    · rw [List.mem_singleton.mp ha]
      exact List.mem_append_right _ (List.mem_singleton.mpr rfl)
  | call name =>
    rcases List.mem_cons.mp ha with rfl | ha
    · trivial
    · exact (Expr.actions_ofExpression name a ha).ofCommand
  | emit name | mimic name => exact (Expr.actions_ofExpression name a ha).ofCommand
  | tell target block => exact target.actions_ofCommand block a ha
  | effect op args => exact (Expr.argumentActions_ofExpression args a ha).ofCommand
  | unknown tag =>
    rw [List.mem_singleton.mp ha]
    trivial

/-! ### What bodies record -/

namespace Compile

open Lua

theorem mem_table_of_ofName? {name : String} {a : Accessor} (h : Accessor.ofName? name = some a) :
    (name, a) ∈ Accessor.table := by
  obtain ⟨_, _, htable, _⟩ := List.lookup_eq_some_iff.mp h
  rw [htable]
  exact List.mem_append_right _ List.mem_cons_self

theorem isDotted_of_ofName? {name : String} {a : Accessor} (h : Accessor.ofName? name = some a) :
    isDotted name = true := by
  have dotted : ∀ entry ∈ Accessor.table, isDotted entry.1 = true := by decide
  exact dotted (name, a) (mem_table_of_ofName? h)

/-- Reading a name asks for the declaration that its accessor needs, counts a use of a variable, or
does nothing. -/
theorem readVariable_eq (name : String) : readVariable name =
    match Accessor.ofName? name with
    | some a => ⟨a.declaration?.toList.map .declare, .ok a.text⟩
    | none => if isDotted name then ⟨[], .ok name⟩ else ⟨[.use name], .ok (variableRef name)⟩ := by
  rw [readVariable]
  cases h : Accessor.ofName? name with
  | some a =>
    rw [isDotted_of_ofName? h, if_pos rfl]
    cases a <;> rfl
  | none => split <;> rfl

/-- Writing a name is refused if the runtime owns it; otherwise it declares nothing. -/
theorem writeTarget_eq (name : String) : writeTarget name =
    if isReservedName name then ⟨[], .error (.reservedName name)⟩
    else if isDotted name then ⟨[], .ok name⟩ else ⟨[.use name], .ok (variableRef name)⟩ := by
  rw [writeTarget]
  by_cases h : isReservedName name
  · rw [if_pos h, if_pos h]
    rfl
  · rw [if_neg h, if_neg h, readVariable_eq]
    rw [isReservedName, Bool.not_eq_true, Option.isSome_eq_false_iff, Option.isNone_iff_eq_none] at h
    rw [h]

end Compile

/-- The entries that compiling commands and expressions may record. -/
def Entry.OfBody : Entry → Prop
  | .use name => Lua.isDotted name = false
  | .note (.unknownCommand _) | .note (.unknownExpression _) | .declare _ => True
  | .note _ | .candidate _ => False

def Outcome.Records {α : Type} (P : Entry → Prop) (x : Outcome α) : Prop := ∀ e ∈ x.log, P e

namespace Outcome.Records

variable {α β : Type} {P Q : Entry → Prop}

theorem pure (a : α) : Records P (Pure.pure a : Outcome α) := fun _ h => nomatch h

theorem fail (e : CompileError) : Records P (Outcome.fail e : Outcome α) := fun _ h => nomatch h

theorem entry {e : Entry} (h : P e) : Records P (Outcome.entry e) := by
  intro e' he
  rw [List.mem_singleton.mp he]
  exact h

theorem bind {x : Outcome α} {f : α → Outcome β} (hx : Records P x) (hf : ∀ a, Records P (f a)) :
    Records P (x >>= f) := by
  obtain ⟨log, e | a⟩ := x
  · exact hx
  · intro e he
    rcases List.mem_append.mp he with he | he
    · exact hx e he
    · exact hf a e he

theorem mono {x : Outcome α} (h : ∀ e, P e → Q e) (hx : Records P x) : Records Q x :=
  fun e he => h e (hx e he)

end Outcome.Records

namespace Compile

open Lua Outcome

variable {bodies : BodyCompiler} {s : Scope}

theorem readVariable_records (name : String) : Records Entry.OfBody (readVariable name) := by
  rw [readVariable_eq]
  split
  · intro e he
    obtain ⟨_, _, rfl⟩ := List.mem_map.mp he
    trivial
  · split
    · exact .pure _
    · exact .entry (eq_false_of_ne_true ‹_›)

theorem writeTarget_records (name : String) : Records Entry.OfBody (writeTarget name) := by
  rw [writeTarget]
  split
  · exact .fail _
  · exact readVariable_records name

theorem Action.run_records (hbodies : ∀ s f i, Records Entry.OfBody (bodies s f i)) (a : Action) :
    Records Entry.OfBody (a.run bodies s) := by
  cases a with
  | read name => exact readVariable_records name
  | write name => exact writeTarget_records name
  | enter place index => exact hbodies _ _ _
  | _ => exact .entry trivial

theorem Performs.records {α : Type} {x : Outcome α} {as : List Action}
    (hx : Performs bodies s as x) (hbodies : ∀ s f i, Records Entry.OfBody (bodies s f i)) :
    Records Entry.OfBody x := by
  intro e he
  rw [hx.log_eq] at he
  obtain ⟨a, -, he⟩ := Action.exists_of_mem_log he
  exact a.run_records hbodies e he

/-! ### Blocks at a level -/

theorem blockWith_log (isFunction : Bool) (cs : Block) :
    (blockWith bodies s isFunction cs).log =
      if isFunction then (commandsWith bodies s cs).log.filter fun e => e.declaration?.isNone
      else (commandsWith bodies s cs).log := by
  cases isFunction
  · rfl
  · rw [if_pos rfl, blockWith, if_pos rfl]
    obtain ⟨log, e | t⟩ := commandsWith bodies s cs <;> simp [Outcome.functionScope, Except.map]

theorem blockWith_error_iff {isFunction : Bool} {cs : Block} {e : CompileError} :
    (blockWith bodies s isFunction cs).result = .error e ↔
      (commandsWith bodies s cs).result = .error e := by
  cases isFunction
  · rfl
  · rw [blockWith, if_pos rfl]
    obtain ⟨log, e | t⟩ := commandsWith bodies s cs <;> simp [Outcome.functionScope, Except.map]

/-- The text of a function: the declarations that its commands ask for, and the commands. -/
theorem blockWith_function_eq_ok {cs : Block} {t : String} :
    (blockWith bodies s true cs).result = .ok t ↔
      ∃ body, (commandsWith bodies s cs).result = .ok body ∧
        t = declarationLines s (declarations (commandsWith bodies s cs).log) ++ body := by
  rw [blockWith, if_pos rfl]
  obtain ⟨log, e | b⟩ := commandsWith bodies s cs <;>
    simp [Outcome.functionScope, Except.map, eq_comm]

theorem blockWith_records (hbodies : ∀ s f i, Records Entry.OfBody (bodies s f i)) (isFunction : Bool)
    (cs : Block) : Records Entry.OfBody (blockWith bodies s isFunction cs) := by
  intro e he
  have h : Records Entry.OfBody (commandsWith bodies s cs) :=
    (commandsWith_performs cs).records hbodies
  rw [blockWith_log] at he
  split at he
  · exact h e (List.mem_of_mem_filter he)
  · exact h e he

theorem bodyWithin_succ {levels : Nat} {isFunction : Bool} {index : Nat} {cs : Block}
    (h : s.blocks[index]? = some cs) :
    bodyWithin (levels + 1) s isFunction index = blockWith (bodyWithin levels) s isFunction cs := by
  rw [bodyWithin, Scope.blockAt, h]

theorem bodyWithin_missing {levels : Nat} {isFunction : Bool} {index : Nat}
    (h : s.blocks[index]? = none) :
    bodyWithin levels s isFunction index = Outcome.fail (.missingBlock index) := by
  cases levels <;> rw [bodyWithin, Scope.blockAt, h]

/-- Compiling a block records no candidate, whatever blocks it enters. -/
theorem bodyWithin_records : (levels : Nat) → (s : Scope) → (isFunction : Bool) →
    (index : Nat) → Records Entry.OfBody (bodyWithin levels s isFunction index)
  | levels, s, isFunction, index => by
    cases h : s.blocks[index]? with
    | none =>
      rw [bodyWithin_missing h]
      exact .fail _
    | some cs =>
      cases levels with
      | zero =>
        rw [bodyWithin, Scope.blockAt, h]
        exact .fail _
      | succ levels =>
        rw [bodyWithin_succ h]
        exact blockWith_records (bodyWithin_records levels) isFunction cs

/-- A function keeps its declarations to itself. -/
theorem declare_not_mem_bodyWithin_function {levels index : Nat} {d : String} :
    .declare d ∉ (bodyWithin levels s true index).log := by
  cases h : s.blocks[index]? with
  | none => simp [bodyWithin_missing h, Outcome.fail]
  | some cs =>
    cases levels with
    | zero => simp [bodyWithin, Scope.blockAt, h, Outcome.fail]
    | succ levels => simp [bodyWithin_succ h, blockWith_log, Entry.declaration?]

end Compile
end GameScript
