import GameScript.Compile.Command
import Mathlib.Data.List.Forall2

/-! What a compile does besides writing its text. The actions of an expression or a command are read
off its syntax: the variables it reads and writes, its calls, the unknown tags that it reports and the
blocks that it enters, in order. `Performs` says that an outcome records and fails as a list of actions
does, and the main statements are that compiling performs the actions of what is compiled. -/

namespace GameScript

namespace Compile

/-- Where a command or an expression refers to a block: a branch or a loop, which belongs to the
function around it, a function that is handed over, or the body of a tell. -/
inductive Place where
  | branch
  | callback
  | told
deriving DecidableEq, Repr

namespace Place

def isFunction : Place → Bool
  | branch => false
  | callback | told => true

def scope (s : Scope) : Place → Scope
  | branch => s.indented 1
  | callback => s.indented 2
  | told => (s.indented 2).withTarget toldTarget

@[simp] theorem blocks_scope (s : Scope) (p : Place) : (p.scope s).blocks = s.blocks := by
  cases p <;> rfl

end Place

/-- One thing that a compile does besides writing text. -/
inductive Action where
  | read (name : String)
  | write (name : String)
  | call
  | unknownExpression (tag : String)
  | unknownCommand (tag : String)
  | enter (place : Place) (index : Nat)
deriving DecidableEq, Repr

end Compile

open Compile

namespace Expr

mutual

/-- What compiling an expression does. Pairs and rectangles that stand alone are not looked into. -/
def actions : Expr → List Action
  | .read name => [.read name]
  | .format parts => (eachActions parts).flatten
  | .embed inner => actions inner
  | .pair _ _ => [.unknownExpression "xy"]
  | .rect _ => [.unknownExpression "rect"]
  | .nameOf (.pair x y :: _) => actions x ++ actions y
  | .nameOf args | .value _ args => argumentActions args
  | .block index => [.enter .callback index]
  | .unknown tag => [.unknownExpression tag]
  | .string _ | .number _ | .bool _ | .nil | .tile _ _ => []

def eachActions : List Expr → List (List Action)
  | [] => []
  | e :: es => actions e :: eachActions es

def argumentActions : List Expr → List Action
  | [] => []
  | .pair x y :: args => actions x ++ actions y ++ argumentActions args
  | .rect parts :: args =>
      ((eachActions parts).take Argument.rectSlots.length).flatten ++ argumentActions args
  | arg :: args => actions arg ++ argumentActions args

end

end Expr

def Comparison.actions (c : Comparison) : List Action :=
  (match c.left with
    | .string name => if Lua.isToken name then [.read name] else []
    | e => e.actions) ++ c.right.actions

def Clause.actions : Clause → List Action
  | .elseIf c block => c.actions ++ [.enter .branch block]
  | .otherwise block => [.enter .branch block]

def TellTarget.actions (block : Nat) : TellTarget → List Action
  | .place x y => y.actions ++ x.actions ++ [.enter .told block]
  | .room | .player | .game => [.enter .told block]
  | .named name => Expr.argumentActions [name, .block block]

def Command.actions : Command → List Action
  | .noop | .comment | .continuedComment | .done => []
  | .assign target _ value => .write target :: value.actions
  | .increment target | .decrement target => [.write target]
  | .cond c block clauses => c.actions ++ .enter .branch block :: clauses.flatMap Clause.actions
  | .loop c block => c.actions ++ [.enter .branch block]
  | .call name => .call :: name.actions
  | .emit name => name.actions
  | .mimic target => target.actions
  | .tell target block => target.actions block
  | .effect _ args => Expr.argumentActions args
  | .unknown tag => [.unknownCommand tag]

namespace Outcome

variable {α β : Type}

theorem bind_of_ok {x : Outcome α} {a : α} (h : x.result = .ok a) (f : α → Outcome β) :
    x >>= f = ⟨x.log ++ (f a).log, (f a).result⟩ := by
  obtain ⟨log, result⟩ := x
  subst h
  rfl

theorem bind_of_error {x : Outcome α} {e : CompileError} (h : x.result = .error e)
    (f : α → Outcome β) : x >>= f = ⟨x.log, .error e⟩ := by
  obtain ⟨log, result⟩ := x
  subst h
  rfl

theorem log_map (f : α → β) (x : Outcome α) : (f <$> x).log = x.log := by
  obtain ⟨log, _ | a⟩ := x <;> simp [map_eq_bind]

/-- A traversal that has results has them one by one, and records what they record. -/
theorem mapM_eq_ok {f : α → Outcome β} : {as : List α} → {bs : List β} → (as.mapM f).result = .ok bs →
    List.Forall₂ (fun a b => (f a).result = .ok b) as bs ∧ (as.mapM f).log = as.flatMap fun a => (f a).log
  | [], bs, h => by
    cases h
    exact ⟨.nil, rfl⟩
  | a :: as, bs, h => by
    rw [List.mapM_cons] at h ⊢
    obtain ⟨b, hb, h⟩ := result_bind_eq_ok_iff.mp h
    obtain ⟨bs', hbs, h⟩ := result_bind_eq_ok_iff.mp h
    cases h
    obtain ⟨hall, hlog⟩ := mapM_eq_ok hbs
    refine ⟨.cons hb hall, ?_⟩
    rw [bind_of_ok hb, bind_of_ok hbs, hlog, List.flatMap_cons]
    exact congrArg _ (List.append_nil _)

/-- Every value of a traversal that has results has one of them. -/
theorem exists_of_mapM_eq_ok {f : α → Outcome β} {as : List α} {bs : List β} (h : (as.mapM f).result = .ok bs)
    {a : α} (ha : a ∈ as) : ∃ b ∈ bs, (f a).result = .ok b := by
  obtain ⟨i, hi, rfl⟩ := List.getElem_of_mem ha
  obtain ⟨hall, -⟩ := mapM_eq_ok h
  have hi' : i < bs.length := hall.length_eq ▸ hi
  exact ⟨bs[i], List.getElem_mem _, hall.get hi hi'⟩

/-- An outcome without its result: what it records, and whether and how it fails. -/
def effects (x : Outcome α) : Outcome Unit := ⟨x.log, x.result.map fun _ => ()⟩

@[simp] theorem effects_log (x : Outcome α) : x.effects.log = x.log := rfl

theorem effects_bind (x : Outcome α) (f : α → Outcome β) {y : Outcome Unit}
    (h : ∀ a, (f a).effects = y) : (x >>= f).effects = x.effects >>= fun _ => y := by
  obtain ⟨log, e | a⟩ := x
  · rfl
  · simp [effects, Except.map, ← h a]

theorem effects_result_eq_ok {x : Outcome α} : x.effects.result = .ok () ↔ ∃ a, x.result = .ok a := by
  obtain ⟨log, e | a⟩ := x <;> simp [effects, Except.map]

theorem effects_result_eq_error {x : Outcome α} {e : CompileError} :
    x.effects.result = .error e ↔ x.result = .error e := by
  obtain ⟨log, e | a⟩ := x <;> simp [effects, Except.map]

end Outcome

namespace Compile

/-- The declaration of the object that calls of a function dispatch on. -/
def objectDeclaration (target : String) : String := s!"local __evobj = {target}"

def Action.run (bodies : BodyCompiler) (s : Scope) : Action → Outcome Unit
  | read name => (readVariable name).effects
  | write name => (writeTarget name).effects
  | call => Outcome.declare (objectDeclaration s.target)
  | unknownExpression tag => Outcome.note (.unknownExpression tag)
  | unknownCommand tag => Outcome.note (.unknownCommand tag)
  | enter place index => (bodies (place.scope s) place.isFunction index).effects

/-- Carries out actions in order, up to the first one that fails. -/
def Action.runAll (bodies : BodyCompiler) (s : Scope) : List Action → Outcome Unit
  | [] => return ()
  | a :: as => do
      a.run bodies s
      runAll bodies s as

section

variable {bodies : BodyCompiler} {s : Scope} {α β : Type}

theorem Action.runAll_append (as bs : List Action) : Action.runAll bodies s (as ++ bs) =
    Action.runAll bodies s as >>= fun _ => Action.runAll bodies s bs := by
  induction as with
  | nil => rfl
  | cons a as ih => simp only [List.cons_append, Action.runAll, ih, bind_assoc]

theorem Action.runAll_singleton (a : Action) :
    Action.runAll bodies s [a] = a.run bodies s := bind_pure (a.run bodies s)

theorem Action.runAll_cons_error {a : Action} {as : List Action} {e : CompileError}
    (h : (a.run bodies s).result = .error e) :
    Action.runAll bodies s (a :: as) = ⟨(a.run bodies s).log, .error e⟩ :=
  Outcome.bind_of_error h _

theorem Action.runAll_cons_ok {a : Action} {as : List Action}
    (h : (a.run bodies s).result = .ok ()) :
    Action.runAll bodies s (a :: as) = ⟨(a.run bodies s).log ++ (Action.runAll bodies s as).log,
      (Action.runAll bodies s as).result⟩ :=
  Outcome.bind_of_ok h _

theorem Action.exists_of_mem_log {as : List Action} {e : Entry}
    (h : e ∈ (Action.runAll bodies s as).log) : ∃ a ∈ as, e ∈ (a.run bodies s).log := by
  induction as with
  | nil => cases h
  | cons a as ih =>
    cases hr : (a.run bodies s).result with
    | error err =>
      rw [Action.runAll_cons_error hr] at h
      exact ⟨a, List.mem_cons_self, h⟩
    | ok u =>
      rw [Action.runAll_cons_ok hr] at h
      rcases List.mem_append.mp h with h | h
      · exact ⟨a, List.mem_cons_self, h⟩
      · obtain ⟨b, hb, he⟩ := ih h
        exact ⟨b, List.mem_cons_of_mem a hb, he⟩

theorem Action.exists_of_error {as : List Action} {e : CompileError}
    (h : (Action.runAll bodies s as).result = .error e) :
    ∃ a ∈ as, (a.run bodies s).result = .error e := by
  induction as with
  | nil => cases h
  | cons a as ih =>
    cases hr : (a.run bodies s).result with
    | error err =>
      rw [Action.runAll_cons_error hr] at h
      exact ⟨a, List.mem_cons_self, hr.trans h⟩
    | ok u =>
      rw [Action.runAll_cons_ok hr] at h
      obtain ⟨b, hb, he⟩ := ih h
      exact ⟨b, List.mem_cons_of_mem a hb, he⟩

/-- Where all succeed, no action fails, and what each of them records is in the log. -/
theorem Action.of_runAll_ok {as : List Action} (h : (Action.runAll bodies s as).result = .ok ()) :
    ∀ a ∈ as, (a.run bodies s).result = .ok () ∧
      ∀ e ∈ (a.run bodies s).log, e ∈ (Action.runAll bodies s as).log := by
  induction as with
  | nil => intro a ha; cases ha
  | cons a as ih =>
    cases hr : (a.run bodies s).result with
    | error err =>
      rw [Action.runAll_cons_error hr] at h
      cases h
    | ok u =>
      rw [Action.runAll_cons_ok hr] at h ⊢
      intro b hb
      rcases List.mem_cons.mp hb with rfl | hb
      · exact ⟨hr, fun e he => List.mem_append_left _ he⟩
      · obtain ⟨hok, hlog⟩ := ih h b hb
        exact ⟨hok, fun e he => List.mem_append_right _ (hlog e he)⟩

/-- The outcome records and fails as the actions do. -/
def Performs (bodies : BodyCompiler) (s : Scope) (as : List Action) (x : Outcome α) : Prop :=
  x.effects = Action.runAll bodies s as

namespace Performs

theorem pure (a : α) : Performs bodies s [] (Pure.pure a : Outcome α) := rfl

theorem bind {x : Outcome α} {f : α → Outcome β} {as bs : List Action}
    (hx : Performs bodies s as x) (hf : ∀ a, Performs bodies s bs (f a)) :
    Performs bodies s (as ++ bs) (x >>= f) := by
  rw [Performs, Outcome.effects_bind x f hf, hx, Action.runAll_append]

theorem of_run {x : Outcome α} {a : Action} (h : x.effects = a.run bodies s) :
    Performs bodies s [a] x := h.trans (Action.runAll_singleton a).symm

theorem bind_pure {x : Outcome α} {f : α → Outcome β} {as : List Action}
    (hx : Performs bodies s as x) (hf : ∀ a, Performs bodies s [] (f a)) :
    Performs bodies s as (x >>= f) := by
  rw [← List.append_nil as]
  exact hx.bind hf

theorem log_eq {x : Outcome α} {as : List Action} (hx : Performs bodies s as x) :
    x.log = (Action.runAll bodies s as).log := congrArg Outcome.log hx

theorem error_iff {x : Outcome α} {as : List Action} (hx : Performs bodies s as x)
    {e : CompileError} : x.result = .error e ↔ (Action.runAll bodies s as).result = .error e := by
  rw [← hx, Outcome.effects_result_eq_error]

theorem ok_iff {x : Outcome α} {as : List Action} (hx : Performs bodies s as x) :
    (∃ a, x.result = .ok a) ↔ (Action.runAll bodies s as).result = .ok () := by
  rw [← hx, Outcome.effects_result_eq_ok]

theorem run_eq_ok {x : Outcome α} {as : List Action} (hx : Performs bodies s as x) {r : α}
    (h : x.result = .ok r) : ∀ a ∈ as, (a.run bodies s).result = .ok () :=
  fun a ha => (Action.of_runAll_ok (hx.ok_iff.mp ⟨r, h⟩) a ha).1

/-- What has a result records what each of its actions records. -/
theorem mem_log {x : Outcome α} {as : List Action} (hx : Performs bodies s as x) {r : α}
    (h : x.result = .ok r) {e : Entry} : e ∈ x.log ↔ ∃ a ∈ as, e ∈ (a.run bodies s).log := by
  rw [hx.log_eq]
  constructor
  · exact Action.exists_of_mem_log
  · rintro ⟨a, ha, he⟩
    exact (Action.of_runAll_ok (hx.ok_iff.mp ⟨r, h⟩) a ha).2 e he

theorem map {x : Outcome α} {as : List Action} (f : α → β) (hx : Performs bodies s as x) :
    Performs bodies s as (f <$> x) := hx.bind_pure fun _ => pure _

end Performs

/-! ### Expressions -/

theorem readVariable_performs (name : String) :
    Performs bodies s [.read name] (readVariable name) := .of_run rfl

theorem writeTarget_performs (name : String) :
    Performs bodies s [.write name] (writeTarget name) := .of_run rfl

theorem unknown_performs (tag : String) :
    Performs bodies s [.unknownExpression tag] (unknown tag) := .of_run rfl

theorem enter_performs (p : Place) (index : Nat) :
    Performs bodies s [.enter p index] (bodies (p.scope s) p.isFunction index) := .of_run rfl

theorem callback_performs (index : Nat) :
    Performs bodies s [.enter .callback index] (callback bodies s index) :=
  (enter_performs .callback index).bind_pure fun _ => .pure _

mutual

theorem expression_performs : (e : Expr) → Performs bodies s e.actions (expression bodies s e)
  | .string _ | .number _ | .bool true | .bool false | .nil | .tile _ _ => .pure _
  | .read name => readVariable_performs name
  | .format parts => (pieces_performs parts).map _
  | .embed inner => (expression_performs inner).bind_pure fun _ => .pure _
  | .pair _ _ | .rect _ | .unknown _ => unknown_performs _
  | .block index => callback_performs index
  | .value _ args => (arguments_performs args).map _
  | .nameOf args => by
      have h := arguments_performs args
      cases args with
      | nil => exact h.map _
      | cons e _ =>
        cases e with
        | pair x y =>
          exact (expression_performs x).bind fun _ =>
            (expression_performs y).bind_pure fun _ => .pure _
        | _ => exact h.map _

theorem pieces_performs : (es : List Expr) →
    Performs bodies s (Expr.eachActions es).flatten (pieces bodies s es)
  | [] => .pure _
  | e :: es => by
      have first := expression_performs e
      have rest := pieces_performs es
      cases e with
      | string _ => exact rest.bind_pure fun _ => .pure _
      | _ => exact first.bind fun _ => rest.bind_pure fun _ => .pure _

theorem arguments_performs : (es : List Expr) →
    Performs bodies s (Expr.argumentActions es) (arguments bodies s es)
  | [] => .pure _
  | e :: es => by
      have first := expression_performs e
      have rest := arguments_performs es
      cases e with
      | pair x y =>
        rw [Expr.argumentActions, List.append_assoc]
        exact (expression_performs x).bind fun _ => (expression_performs y).bind fun _ =>
          rest.bind_pure fun _ => .pure _
      | rect parts => exact (sides_performs _ parts).bind fun _ => rest.bind_pure fun _ => .pure _
      | _ => exact first.bind fun _ => rest.bind_pure fun _ => .pure _

theorem sides_performs : (n : Nat) → (es : List Expr) →
    Performs bodies s ((Expr.eachActions es).take n).flatten (sides bodies s n es)
  | 0, [] | 0, _ :: _ | _ + 1, [] => .pure _
  | n + 1, e :: es =>
      (expression_performs e).bind fun _ => (sides_performs n es).bind_pure fun _ => .pure _

end

/-! ### Commands -/

theorem comparison_performs (c : Comparison) :
    Performs bodies s c.actions (comparison bodies s c) := by
  have last : ∀ left : String, Performs bodies s c.right.actions (do
      let right ← expression bodies s c.right
      return s!"{left} {c.op.symbol} {right}") :=
    fun _ => (expression_performs c.right).bind_pure fun _ => .pure _
  obtain ⟨op, left, right⟩ := c
  cases left with
  | string name =>
    rw [Comparison.actions, comparison]
    by_cases h : Lua.isToken name
    · simp only [h, if_true]
      exact (readVariable_performs name).bind last
    · simp only [h]
      exact Performs.bind (.pure _) last
  | _ => exact (expression_performs _).bind last

theorem branches_performs : (clauses : List Clause) →
    Performs bodies s (clauses.flatMap Clause.actions) (branches bodies s clauses)
  | [] => .pure _
  | .elseIf c block :: clauses => by
      rw [List.flatMap_cons, Clause.actions, List.append_assoc]
      exact (comparison_performs c).bind fun _ => (enter_performs .branch block).bind fun _ =>
        (branches_performs clauses).bind_pure fun _ => .pure _
  | .otherwise block :: clauses =>
      (enter_performs .branch block).bind fun _ =>
        (branches_performs clauses).bind_pure fun _ => .pure _

theorem call_performs (name : Expr) :
    Performs bodies s (.call :: name.actions) (call bodies s name) := by
  refine (Performs.of_run (a := .call) rfl).bind fun _ => ?_
  refine Performs.bind_pure ?_ fun _ => .pure _
  cases name with
  | string t =>
    rw [callSlot]
    split <;> exact .pure _
  | _ => exact (expression_performs _).bind_pure fun _ => .pure _

/-- An expression that denotes a known tile does nothing, and neither does the tile. -/
theorem argumentActions_foldTile? (e : Expr) (args : List Expr) :
    Expr.argumentActions ((s.foldTile? e).getD e :: args) = Expr.argumentActions (e :: args) := by
  cases e with
  | string name =>
    cases h : s.tiles.lookup name <;> (simp only [Scope.foldTile?, h]; rfl)
  | number n =>
    cases h : n.signed64? <;> (simp only [Scope.foldTile?, h]; rfl)
  | _ => rfl

theorem mimicLookup_performs (target : Expr) :
    Performs bodies s target.actions (mimicLookup bodies s target) := by
  rw [mimicLookup]
  cases target with
  | string name =>
    cases h : s.tiles.lookup name <;> simp only [Scope.foldTile?, h] <;> exact .pure _
  | number n =>
    cases h : n.signed64? <;> simp only [Scope.foldTile?, h] <;> exact .pure _
  | _ => exact (expression_performs _).bind_pure fun _ => .pure _

theorem told_performs (label actor guard : String) (block : Nat) :
    Performs bodies s [.enter .told block] (told bodies s label actor guard block) :=
  (enter_performs .told block).bind_pure fun _ => .pure _

theorem tell_performs (target : TellTarget) (block : Nat) :
    Performs bodies s (target.actions block) (tell bodies s target block) := by
  cases target with
  | place x y =>
    rw [TellTarget.actions, List.append_assoc]
    exact (expression_performs y).bind fun _ => (expression_performs x).bind fun _ =>
      told_performs _ _ _ block
  | named name =>
    rw [TellTarget.actions, ← argumentActions_foldTile?]
    exact (arguments_performs _).map _
  | _ => exact told_performs _ _ _ block

theorem assignment_performs (target : String) (op : AssignOp) (value : Expr) :
    Performs bodies s (.write target :: value.actions) (assignment bodies s target op value) := by
  refine (writeTarget_performs target).bind fun _ =>
    (expression_performs value).bind_pure fun _ => ?_
  cases op.operator? <;> exact .pure _

theorem step_performs (target operator : String) :
    Performs bodies s [.write target] (step s target operator) :=
  (writeTarget_performs target).bind_pure fun _ => .pure _

theorem line_performs (c : Command) : Performs bodies s c.actions (line bodies s c) := by
  cases c with
  | noop | comment | continuedComment | done => exact .pure _
  | assign target op value => exact (assignment_performs target op value).map _
  | increment target | decrement target => exact (step_performs target _).map _
  | cond c block clauses =>
    exact Performs.map _ <| (comparison_performs c).bind fun _ =>
      (enter_performs .branch block).bind fun _ => (branches_performs clauses).bind_pure fun _ => .pure _
  | loop c block =>
    exact Performs.map _ <| (comparison_performs c).bind fun _ =>
      (enter_performs .branch block).bind_pure fun _ => .pure _
  | call name => exact (call_performs name).map _
  | emit name => exact (expression_performs name).bind_pure fun _ => .pure _
  | mimic target => exact ((mimicLookup_performs target).bind_pure fun _ => .pure _).map _
  | tell target block => exact (tell_performs target block).map _
  | effect op args => exact (arguments_performs args).bind_pure fun _ => .pure _
  | unknown tag => exact (Performs.of_run (a := .unknownCommand tag) rfl).bind_pure fun _ => .pure _

theorem commandWith_performs (c : Command) :
    Performs bodies s c.actions (commandWith bodies s c) :=
  (line_performs c).bind_pure fun t => by cases t <;> exact .pure _

/-- Commands do what each of them does, in order. -/
theorem commandsWith_performs : (cs : Block) →
    Performs bodies s (cs.flatMap Command.actions) (commandsWith bodies s cs)
  | [] => .pure _
  | c :: cs => (commandWith_performs c).bind fun _ =>
      (commandsWith_performs cs).bind_pure fun _ => .pure _

end
end Compile
end GameScript
