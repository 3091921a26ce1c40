import GameScript.Proofs.Compile.Action
import GameScript.Proofs.Ledger

/-! Compiling on a context. Here a compile is one pass over a context, which it may read and change as it
goes: what happens is recorded at once, and a body is entered by raising the indentation, pushing the
object that calls dispatch on or opening a function, each of which is taken back on the way out. The main
statements are that from any context, and whether or not it succeeds, this gives the result of the outcome
in the context's scope, and leaves the context with the log of that outcome recorded. -/

namespace GameScript

open Compile Lua

/-- A compile that may read and change a context. What it has changed stays so when it fails. -/
abbrev Threaded (α : Type) := ExceptT CompileError (StateM Context) α

namespace Context

def raise (c : Context) (levels : Nat) : Context := { c with scope := c.scope.indented levels }

def lower (c : Context) (levels : Nat) : Context :=
  { c with scope := { c.scope with indent := c.scope.indent - levels } }

def pushTarget (c : Context) (target : String) : Context :=
  { c with scope := c.scope.withTarget target }

def popTarget (c : Context) : Context :=
  { c with scope := { c.scope with targets := c.scope.targets.tail } }

end Context

namespace Threaded

variable {α β : Type}

/-! ### Operations on a context -/

/-- Runs a compile on a context: its result, and the context that it leaves. -/
def exec (x : Threaded α) (c : Context) : Except CompileError α × Context := x.run.run c

def scope : Threaded Scope := do return (← get).scope

def entry (e : Entry) : Threaded Unit := modify fun c => c.record [e]

/-- Runs a compile between two changes of the context, the second of which takes the first one back. -/
def between (enter leave : Context → Context) (x : Threaded α) : Threaded α := ExceptT.mk do
  modify enter
  let result ← x.run
  modify leave
  return result

def indented (levels : Nat) (x : Threaded α) : Threaded α :=
  between (·.raise levels) (·.lower levels) x

def withTarget (target : String) (x : Threaded α) : Threaded α :=
  between (·.pushTarget target) Context.popTarget x

/-- Runs a compile in a function of its own: its result, and the declarations of the function. -/
def functionScope (x : Threaded α) : Threaded (α × List String) := ExceptT.mk do
  modify fun c => { c with ledger := c.ledger.openFunction }
  let result ← x.run
  let ds ← modifyGet fun c => (c.ledger.closeFunction.1, { c with ledger := c.ledger.closeFunction.2 })
  return result.map fun a => (a, ds)

/-! ### Expressions -/

/-- How the block at an index is compiled, as a function of its own or not. -/
abbrev Bodies := Bool → Nat → Threaded String

def unknown (tag : String) : Threaded String := do
  entry (.note (.unknownExpression tag))
  return s!"nil --[[unknown expression code '{tag}']]"

def useVariable (name : String) : Threaded String := do
  entry (.use name)
  return variableRef name

def readVariable (name : String) : Threaded String :=
  if isDotted name then
    match Accessor.ofName? name with
    | some a => do
        match a.declaration? with
        | some d => entry (.declare d)
        | none => pure ()
        return a.text
    | none => return name
  else useVariable name

def callback (bodies : Bodies) (index : Nat) : Threaded String := do
  let body ← indented 2 (bodies true index)
  let s ← scope
  return s!"function({handlerParameters})\n{body}{s.margin}  end"

mutual

def expression (bodies : Bodies) : Expr → Threaded String
  | .string t => return quote t
  | .number n => return n.text
  | .bool true => return "true"
  | .bool false => return "false"
  | .nil => return "nil"
  | .read name => readVariable name
  | .tile id name => return tileText id name
  | .format parts => concatenation <$> pieces bodies parts
  | .embed inner => do
      let t ← expression bodies inner
      return s!"__pulp.__ex_embed({t})"
  | .nameOf (.pair x y :: _) => do
      let x ← expression bodies x
      let y ← expression bodies y
      return s!"__roomtiles[{y}][{x}].name"
  | .nameOf args => Call.text .value ValueOp.name.opcode <$> arguments bodies args
  | .value op args => Call.text .value op.opcode <$> arguments bodies args
  | .block index => callback bodies index
  | .pair _ _ => unknown "xy"
  | .rect _ => unknown "rect"
  | .unknown tag => unknown tag

def pieces (bodies : Bodies) : List Expr → Threaded (List String)
  | [] => return []
  | .string t :: parts => do
      let ts ← pieces bodies parts
      return quote t :: ts
  | part :: parts => do
      let t ← expression bodies part
      let ts ← pieces bodies parts
      return s!"__tostring({t})" :: ts

def arguments (bodies : Bodies) : List Expr → Threaded (List Argument)
  | [] => return []
  | .pair x y :: args => do
      let x ← expression bodies x
      let y ← expression bodies y
      let rest ← arguments bodies args
      return .pair x y :: rest
  | .rect parts :: args => do
      let ts ← sides bodies Argument.rectSlots.length parts
      let rest ← arguments bodies args
      return .rect ts :: rest
  | .block index :: args => do
      let t ← callback bodies index
      let rest ← arguments bodies args
      return .callback t :: rest
  | arg :: args => do
      let t ← expression bodies arg
      let rest ← arguments bodies args
      return .plain t :: rest

def sides (bodies : Bodies) : Nat → List Expr → Threaded (List String)
  | 0, _ => return []
  | _, [] => return []
  | n + 1, part :: parts => do
      let t ← expression bodies part
      let ts ← sides bodies n parts
      return t :: ts

end

/-! ### Commands -/

def writeTarget (target : String) : Threaded String :=
  if isReservedName target then throw (.reservedName target) else readVariable target

def assignment (bodies : Bodies) (target : String) (op : AssignOp) (value : Expr) :
    Threaded String := do
  let target ← writeTarget target
  let value ← expression bodies value
  let s ← scope
  match op.operator? with
  | none => return s!"{target} = {value}"
  | some operator => return compound s target operator value

def step (target operator : String) : Threaded String := do
  let target ← writeTarget target
  let s ← scope
  return compound s target operator "1"

def comparison (bodies : Bodies) (c : Comparison) : Threaded String := do
  let left ← match c.left with
    | .string name => if isToken name then readVariable name else pure (quote name)
    | e => expression bodies e
  let right ← expression bodies c.right
  return s!"{left} {c.op.symbol} {right}"

def branches (bodies : Bodies) : List Clause → Threaded String
  | [] => return ""
  | .elseIf c block :: clauses => do
      let s ← scope
      let head ← comparison bodies c
      let body ← indented 1 (bodies false block)
      let rest ← branches bodies clauses
      return s!"{s.margin}elseif {head} then\n{body}{rest}"
  | .otherwise block :: clauses => do
      let s ← scope
      let body ← indented 1 (bodies false block)
      let rest ← branches bodies clauses
      return s!"{s.margin}else\n{body}{rest}"

def conditional (bodies : Bodies) (c : Comparison) (block : Nat) (clauses : List Clause) :
    Threaded String := do
  let s ← scope
  let head ← comparison bodies c
  let body ← indented 1 (bodies false block)
  let rest ← branches bodies clauses
  return s!"if {head} then\n{body}{rest}{s.margin}end"

def loop (bodies : Bodies) (c : Comparison) (block : Nat) : Threaded String := do
  let s ← scope
  let head ← comparison bodies c
  let body ← indented 1 (bodies false block)
  return s!"while {head} do\n{body}{s.margin}end"

def callSlot (bodies : Bodies) : Expr → Threaded (String × String)
  | .string name =>
      if isIdentifier name then return (field "__evobj" name, quote name)
      else return (s!"__evobj[{quote name}]", quote name)
  | e => do
      let name ← expression bodies e
      return (s!"__evobj[{name}]", name)

def call (bodies : Bodies) (name : Expr) : Threaded String := do
  let s ← scope
  entry (.declare s!"local __evobj = {s.target}")
  let (slot, name) ← callSlot bodies name
  return s!";({slot} or __evobj.any)(__evobj, __actor, event, {name}) -- call {oneLine name}"

def mimicLookup (bodies : Bodies) (target : Expr) : Threaded String := do
  let s ← scope
  match s.foldTile? target with
  | some tile => do
      let t ← expression bodies tile
      return s!"((__pulp.tiles[{t}] or __pulp.EMPTY).script or __pulp.EMPTY)"
  | none => do
      let t ← expression bodies target
      return s!"(__pulp:getScript({t}) or __pulp.EMPTY)"

def mimic (bodies : Bodies) (target : Expr) : Threaded String := do
  let s ← scope
  let lookup ← mimicLookup bodies target
  let gi := s.margin
  return s!"do -- (mimic)\n{gi}  local __mimic_target__ = {lookup}\n" ++
    s!"{gi}  ;(__mimic_target__[__evname] or __mimic_target__.any)" ++
    s!"(__mimic_target__, __actor, event, __evname)\n{gi}end"

def told (bodies : Bodies) (label actor guard : String) (block : Nat) : Threaded String := do
  let s ← scope
  let body ← indented 2 (withTarget toldTarget (bodies true block))
  let gi := s.margin
  return s!"do --tell {label} to\n{gi}  local __actor = {actor}\n{gi}  if {guard} then\n" ++
    s!"{body}{gi}  end\n{gi}end"

def tell (bodies : Bodies) (target : TellTarget) (block : Nat) : Threaded String :=
  match target with
  | .place x y => do
      let y ← expression bodies y
      let x ← expression bodies x
      told bodies "x,y" s!"__roomtiles[{y}][{x}]" "__actor and __actor.tile" block
  | .room => told bodies "event.room" "event.room" "__actor" block
  | .game => told bodies "event.game" "event.game" "__actor" block
  | .player => told bodies "__pulp.player" "__pulp.player" "__actor" block
  | .named name => do
      let s ← scope
      Call.text .effect "tell" <$> arguments bodies [(s.foldTile? name).getD name, .block block]

def line (bodies : Bodies) : Command → Threaded (Option String)
  | .noop => return none
  | .comment => return some "--(comment omitted)"
  | .continuedComment => return some "--(previous-line comment omitted)"
  | .done => return some "do return end"
  | .assign target op value => some <$> assignment bodies target op value
  | .increment target => some <$> step target "+"
  | .decrement target => some <$> step target "-"
  | .cond c block clauses => some <$> conditional bodies c block clauses
  | .loop c block => some <$> loop bodies c block
  | .call name => some <$> call bodies name
  | .emit name => do
      let t ← expression bodies name
      return some s!"__pulp:emit({t}, event)"
  | .mimic target => some <$> mimic bodies target
  | .tell target block => some <$> tell bodies target block
  | .effect op args => do
      let args ← arguments bodies args
      return some (Call.text .effect op.name args)
  | .unknown tag => do
      entry (.note (.unknownCommand tag))
      return some s!"--unknown command code '{tag}'"

def commandWith (bodies : Bodies) (c : Command) : Threaded String := do
  let s ← scope
  match ← line bodies c with
  | none => return ""
  | some t => return s!"{s.margin}{t}\n"

def commandsWith (bodies : Bodies) : List Command → Threaded String
  | [] => return ""
  | c :: cs => do
      let t ← commandWith bodies c
      let rest ← commandsWith bodies cs
      return t ++ rest

def blockWith (bodies : Bodies) (isFunction : Bool) (cs : Block) : Threaded String :=
  if isFunction then do
    let (body, ds) ← functionScope (commandsWith bodies cs)
    let s ← scope
    return declarationLines s ds ++ body
  else commandsWith bodies cs

/-- The block at an index, with at most so many levels of blocks in one another. -/
def bodyWithin : Nat → Bodies
  | 0, _, index => do
      let s ← scope
      match s.blockAt index with
      | .ok _ => throw (.cyclicBlock index)
      | .error e => throw e
  | levels + 1, isFunction, index => do
      let s ← scope
      match s.blockAt index with
      | .ok cs => blockWith (bodyWithin levels) isFunction cs
      | .error e => throw e

def body : Bodies := fun isFunction index => do
  let s ← scope
  bodyWithin s.blocks.length isFunction index

def command (c : Command) : Threaded String := commandWith body c

def block (isFunction : Bool) (cs : Block) : Threaded String := blockWith body isFunction cs

def expr (e : Expr) : Threaded String := expression body e

def callOf (kind : CallKind) (op : String) (args : List Expr) : Threaded String :=
  Call.text kind op <$> arguments body args

/-! ### What a compile on a context does -/

theorem exec_bind_ok {x : Threaded α} {c c' : Context} {a : α} (h : x.exec c = (.ok a, c'))
    (f : α → Threaded β) : (x >>= f).exec c = (f a).exec c' := by
  change (match x.exec c with | (r, c) => (ExceptT.bindCont f r).run c) = _
  rw [h]
  rfl

theorem exec_bind_error {x : Threaded α} {c c' : Context} {e : CompileError}
    (h : x.exec c = (.error e, c')) (f : α → Threaded β) : (x >>= f).exec c = (.error e, c') := by
  change (match x.exec c with | (r, c) => (ExceptT.bindCont f r).run c) = _
  rw [h]
  rfl

theorem exec_between (enter leave : Context → Context) (x : Threaded α) (c : Context) :
    (between enter leave x).exec c = ((x.exec (enter c)).1, leave (x.exec (enter c)).2) := rfl

theorem exec_functionScope (x : Threaded α) (c : Context) : x.functionScope.exec c =
    let ended := x.exec { c with ledger := c.ledger.openFunction }
    let closed := ended.2.ledger.closeFunction
    (ended.1.map fun a => (a, closed.1), { ended.2 with ledger := closed.2 }) := rfl

/-- In a scope, a compile does to every context what an outcome says: it gives the outcome's result, and
records its log. -/
def Carries (s : Scope) (x : Threaded α) (y : Outcome α) : Prop :=
  ∀ c : Context, c.scope = s → x.exec c = (y.result, c.record y.log)

namespace Carries

variable {s : Scope}

theorem pure (a : α) : Carries s (Pure.pure a) (Pure.pure a : Outcome α) := fun _ _ => rfl

theorem bind {x : Threaded α} {y : Outcome α} {f : α → Threaded β} {g : α → Outcome β}
    (hx : Carries s x y) (hf : ∀ a, Carries s (f a) (g a)) : Carries s (x >>= f) (y >>= g) := by
  intro c hc
  obtain ⟨log, e | a⟩ := y
  · exact exec_bind_error (hx c hc) f
  · refine (exec_bind_ok (hx c hc) f).trans ((hf a (c.record log) hc).trans ?_)
    simp [Context.record]

theorem map {x : Threaded α} {y : Outcome α} (f : α → β) (hx : Carries s x y) :
    Carries s (f <$> x) (f <$> y) := hx.bind fun a => pure (f a)

theorem entry (e : Entry) : Carries s (Threaded.entry e) (Outcome.entry e) := fun _ _ => rfl

theorem fail (e : CompileError) : Carries s (throw e) (Outcome.fail e : Outcome α) :=
  fun _ _ => rfl

/-- What a compile reads of the context is the scope. -/
theorem read {f : Scope → Threaded α} {y : Outcome α} (h : Carries s (f s) y) :
    Carries s (scope >>= f) y := by
  rintro c rfl
  exact h c rfl

theorem indented {levels : Nat} {x : Threaded α} {y : Outcome α}
    (h : Carries (s.indented levels) x y) : Carries s (indented levels x) y := by
  rintro c rfl
  rw [Threaded.indented, exec_between, h (c.raise levels) rfl]
  simp [Context.record, Context.lower, Context.raise, Scope.indented]

theorem withTarget {target : String} {x : Threaded α} {y : Outcome α}
    (h : Carries (s.withTarget target) x y) : Carries s (withTarget target x) y := by
  rintro c rfl
  rw [Threaded.withTarget, exec_between, h (c.pushTarget target) rfl]
  rfl

/-- The declarations that a function has scheduled when it is closed are those of its outcome. -/
theorem functionScope {x : Threaded α} {y : Outcome α} (h : Carries s x y) :
    Carries s x.functionScope y.functionScope := by
  rintro c rfl
  rw [exec_functionScope, h { c with ledger := c.ledger.openFunction } rfl]
  simp only [Context.record, Ledger.closeFunction_recordAll_openFunction]
  rfl

end Carries

variable {s : Scope} {threaded : Bodies} {bodies : BodyCompiler}

/-- Blocks compiled on a context do what the outcomes of the blocks say, in every scope. -/
def Bodies.Carry (threaded : Bodies) (bodies : BodyCompiler) : Prop :=
  ∀ (s : Scope) (isFunction : Bool) (index : Nat),
    Carries s (threaded isFunction index) (bodies s isFunction index)

theorem unknown_carries (tag : String) : Carries s (unknown tag) (Compile.unknown tag) :=
  (Carries.entry _).bind fun _ => .pure _

theorem readVariable_carries (name : String) :
    Carries s (readVariable name) (Compile.readVariable name) := by
  rw [readVariable, Compile.readVariable]
  split
  · cases Accessor.ofName? name with
    | none => exact .pure _
    | some a => cases a with
      | direct _ => exact .pure _
      | _ => exact (Carries.entry _).bind fun _ => .pure _
  · exact (Carries.entry _).bind fun _ => .pure _

theorem writeTarget_carries (name : String) :
    Carries s (writeTarget name) (Compile.writeTarget name) := by
  rw [writeTarget, Compile.writeTarget]
  split
  · exact .fail _
  · exact readVariable_carries name

theorem callback_carries (hbodies : threaded.Carry bodies) (index : Nat) :
    Carries s (callback threaded index) (Compile.callback bodies s index) :=
  (hbodies (s.indented 2) true index).indented.bind fun _ => .read (.pure _)

theorem branch_carries (hbodies : threaded.Carry bodies) (index : Nat) :
    Carries s (indented 1 (threaded false index)) (bodies (s.indented 1) false index) :=
  (hbodies (s.indented 1) false index).indented

mutual

theorem expression_carries (hbodies : threaded.Carry bodies) :
    (e : Expr) → Carries s (expression threaded e) (Compile.expression bodies s e)
  | .string _ | .number _ | .bool true | .bool false | .nil | .tile _ _ => .pure _
  | .read name => readVariable_carries name
  | .format parts => (pieces_carries hbodies parts).map _
  | .embed inner => (expression_carries hbodies inner).bind fun _ => .pure _
  | .pair _ _ | .rect _ | .unknown _ => unknown_carries _
  | .block index => callback_carries hbodies index
  | .value _ args => (arguments_carries hbodies args).map _
  | .nameOf args => by
      have h := arguments_carries hbodies args
      cases args with
      | nil => exact h.map _
      | cons e _ =>
        cases e with
        | pair x y =>
          exact (expression_carries hbodies x).bind fun _ =>
            (expression_carries hbodies y).bind fun _ => .pure _
        | _ => exact h.map _

theorem pieces_carries (hbodies : threaded.Carry bodies) :
    (es : List Expr) → Carries s (pieces threaded es) (Compile.pieces bodies s es)
  | [] => .pure _
  | e :: es => by
      have first := expression_carries hbodies e
      have rest := pieces_carries hbodies es
      cases e with
      | string _ => exact rest.bind fun _ => .pure _
      | _ => exact first.bind fun _ => rest.bind fun _ => .pure _

theorem arguments_carries (hbodies : threaded.Carry bodies) :
    (es : List Expr) → Carries s (arguments threaded es) (Compile.arguments bodies s es)
  | [] => .pure _
  | e :: es => by
      have first := expression_carries hbodies e
      have rest := arguments_carries hbodies es
      cases e with
      | pair x y =>
        exact (expression_carries hbodies x).bind fun _ =>
          (expression_carries hbodies y).bind fun _ => rest.bind fun _ => .pure _
      | rect parts =>
        exact (sides_carries hbodies _ parts).bind fun _ => rest.bind fun _ => .pure _
      | _ => exact first.bind fun _ => rest.bind fun _ => .pure _

theorem sides_carries (hbodies : threaded.Carry bodies) : (n : Nat) → (es : List Expr) →
    Carries s (sides threaded n es) (Compile.sides bodies s n es)
  | 0, [] | 0, _ :: _ | _ + 1, [] => .pure _
  | n + 1, e :: es => (expression_carries hbodies e).bind fun _ =>
      (sides_carries hbodies n es).bind fun _ => .pure _

end

theorem comparison_carries (hbodies : threaded.Carry bodies) (c : Comparison) :
    Carries s (comparison threaded c) (Compile.comparison bodies s c) := by
  have last : ∀ left : String, Carries s
      (do
        let right ← expression threaded c.right
        return s!"{left} {c.op.symbol} {right}")
      (do
        let right ← Compile.expression bodies s c.right
        return s!"{left} {c.op.symbol} {right}") :=
    fun _ => (expression_carries hbodies c.right).bind fun _ => .pure _
  obtain ⟨op, left, right⟩ := c
  cases left with
  | string name =>
    rw [comparison, Compile.comparison]
    by_cases h : isToken name
    · simp only [h, if_true]
      exact (readVariable_carries name).bind last
    · simp only [h]
      exact (Carries.pure _).bind last
  | _ => exact (expression_carries hbodies _).bind last

theorem branches_carries (hbodies : threaded.Carry bodies) : (clauses : List Clause) →
    Carries s (branches threaded clauses) (Compile.branches bodies s clauses)
  | [] => .pure _
  | .elseIf c block :: clauses => .read <| (comparison_carries hbodies c).bind fun _ =>
      (branch_carries hbodies block).bind fun _ =>
        (branches_carries hbodies clauses).bind fun _ => .pure _
  | .otherwise block :: clauses => .read <| (branch_carries hbodies block).bind fun _ =>
      (branches_carries hbodies clauses).bind fun _ => .pure _

theorem call_carries (hbodies : threaded.Carry bodies) (name : Expr) :
    Carries s (call threaded name) (Compile.call bodies s name) := by
  refine .read <| (Carries.entry _).bind fun _ => Carries.bind ?_ fun _ => .pure _
  cases name with
  | string t =>
    rw [callSlot, Compile.callSlot]
    split <;> exact .pure _
  | _ => exact (expression_carries hbodies _).bind fun _ => .pure _

theorem mimicLookup_carries (hbodies : threaded.Carry bodies) (target : Expr) :
    Carries s (mimicLookup threaded target) (Compile.mimicLookup bodies s target) := by
  refine .read ?_
  rw [Compile.mimicLookup]
  cases s.foldTile? target <;> exact (expression_carries hbodies _).bind fun _ => .pure _

theorem told_carries (hbodies : threaded.Carry bodies) (label actor guard : String) (block : Nat) :
    Carries s (told threaded label actor guard block)
      (Compile.told bodies s label actor guard block) :=
  .read <| (hbodies _ true block).withTarget.indented.bind fun _ => .pure _

theorem tell_carries (hbodies : threaded.Carry bodies) (target : TellTarget) (block : Nat) :
    Carries s (tell threaded target block) (Compile.tell bodies s target block) := by
  cases target with
  | place x y =>
    exact (expression_carries hbodies y).bind fun _ => (expression_carries hbodies x).bind fun _ =>
      told_carries hbodies _ _ _ block
  | named name => exact .read ((arguments_carries hbodies _).map _)
  | _ => exact told_carries hbodies _ _ _ block

theorem assignment_carries (hbodies : threaded.Carry bodies) (target : String) (op : AssignOp)
    (value : Expr) :
    Carries s (assignment threaded target op value) (Compile.assignment bodies s target op value) := by
  refine (writeTarget_carries target).bind fun _ =>
    (expression_carries hbodies value).bind fun _ => .read ?_
  cases op.operator? <;> exact .pure _

theorem step_carries (target operator : String) :
    Carries s (step target operator) (Compile.step s target operator) :=
  (writeTarget_carries target).bind fun _ => .read (.pure _)

theorem line_carries (hbodies : threaded.Carry bodies) (c : Command) :
    Carries s (line threaded c) (Compile.line bodies s c) := by
  cases c with
  | noop | comment | continuedComment | done => exact .pure _
  | assign target op value => exact (assignment_carries hbodies target op value).map _
  | increment target | decrement target => exact (step_carries target _).map _
  | cond c block clauses =>
    exact Carries.map _ <| .read <| (comparison_carries hbodies c).bind fun _ =>
      (branch_carries hbodies block).bind fun _ =>
        (branches_carries hbodies clauses).bind fun _ => .pure _
  | loop c block =>
    exact Carries.map _ <| .read <| (comparison_carries hbodies c).bind fun _ =>
      (branch_carries hbodies block).bind fun _ => .pure _
  | call name => exact (call_carries hbodies name).map _
  | emit name => exact (expression_carries hbodies name).bind fun _ => .pure _
  | mimic target =>
    exact Carries.map _ <| .read <| (mimicLookup_carries hbodies target).bind fun _ => .pure _
  | tell target block => exact (tell_carries hbodies target block).map _
  | effect op args => exact (arguments_carries hbodies args).bind fun _ => .pure _
  | unknown tag => exact (Carries.entry _).bind fun _ => .pure _

theorem commandWith_carries (hbodies : threaded.Carry bodies) (c : Command) :
    Carries s (commandWith threaded c) (Compile.commandWith bodies s c) :=
  .read <| (line_carries hbodies c).bind fun t => by cases t <;> exact .pure _

theorem commandsWith_carries (hbodies : threaded.Carry bodies) : (cs : Block) →
    Carries s (commandsWith threaded cs) (Compile.commandsWith bodies s cs)
  | [] => .pure _
  | c :: cs => (commandWith_carries hbodies c).bind fun _ =>
      (commandsWith_carries hbodies cs).bind fun _ => .pure _

theorem blockWith_carries (hbodies : threaded.Carry bodies) (isFunction : Bool) (cs : Block) :
    Carries s (blockWith threaded isFunction cs) (Compile.blockWith bodies s isFunction cs) := by
  cases isFunction with
  | false => exact commandsWith_carries hbodies cs
  | true =>
    exact (commandsWith_carries hbodies cs).functionScope.bind fun _ => .read (.pure _)

/-- By induction on the levels of blocks in one another. -/
theorem bodyWithin_carry : (levels : Nat) →
    Bodies.Carry (bodyWithin levels) (Compile.bodyWithin levels)
  | 0, s, isFunction, index => by
    refine .read ?_
    rw [Compile.bodyWithin]
    cases s.blockAt index <;> exact .fail _
  | levels + 1, s, isFunction, index => by
    refine .read ?_
    rw [Compile.bodyWithin]
    cases s.blockAt index with
    | error e => exact .fail e
    | ok cs => exact blockWith_carries (bodyWithin_carry levels) isFunction cs

theorem body_carry : Bodies.Carry body Compile.body :=
  fun s isFunction index => .read (bodyWithin_carry s.blocks.length s isFunction index)

/-! ### Compiling in a context -/

theorem command_carries (c : Command) : Carries s (command c) (Compile.command s c) :=
  commandWith_carries body_carry c

theorem block_carries (isFunction : Bool) (cs : Block) :
    Carries s (block isFunction cs) (Compile.block s isFunction cs) :=
  blockWith_carries body_carry isFunction cs

theorem expr_carries (e : Expr) : Carries s (expr e) (Compile.expr s e) :=
  expression_carries body_carry e

theorem callOf_carries (kind : CallKind) (op : String) (args : List Expr) :
    Carries s (callOf kind op args) (Compile.callOf s kind op args) :=
  (arguments_carries body_carry args).map _

end Threaded
end GameScript
