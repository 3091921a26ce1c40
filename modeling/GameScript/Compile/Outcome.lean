import GameScript.Compile.Scope

/-! The outcome of compiling something: a result, and the log of what happened on the way to it, in
order. A compile never looks at the log; the ledger of the whole unit is built from it. -/

namespace GameScript

/-- Why a script cannot be compiled. -/
inductive CompileError where
  /-- A reference to a block that the script has not. -/
  | missingBlock (index : Nat)
  /-- A block that reaches itself, and so has no finite text. -/
  | cyclicBlock (index : Nat)
  /-- A write to a name that the runtime owns. -/
  | reservedName (name : String)
deriving DecidableEq, Repr

def CompileError.message : CompileError → String
  | .missingBlock index => s!"malformed block reference: no block {index}"
  | .cyclicBlock index => s!"malformed block reference: block {index} reaches itself"
  | .reservedName name => s!"cannot assign to reserved name `{name}`"

/-- Something that is worth telling but does not keep a unit from being compiled. -/
inductive Diagnostic where
  | unknownCommand (tag : String)
  | unknownExpression (tag : String)
  | duplicateScript (kind : ScriptKind) (id : Int)
  | unknownScript (kind : ScriptKind) (id : Int)
  | unknownFrame (tile : String) (frame : Nat)
  | strayAlias (declaration : String)
  | remark (text : String)
deriving DecidableEq, Repr

def Diagnostic.message : Diagnostic → String
  | .unknownCommand tag => s!"unknown command code: {tag}"
  | .unknownExpression tag => s!"unknown expression code: {tag}"
  | .duplicateScript kind id => s!"duplicate script, type {kind.code}, id {id}"
  | .unknownScript kind id => s!"unknown script, type {kind.code}, id {id}"
  | .unknownFrame tile frame => s!"tile {tile} uses unknown frame {frame}"
  | .strayAlias declaration => s!"alias outside of a function: {declaration}"
  | .remark text => text

/-- A handler that does nothing but mimic a known tile. -/
structure Candidate where
  source : String
  event : String
  tile : Int
deriving DecidableEq, Repr

/-- One thing that happens during a compile. -/
inductive Entry where
  /-- A variable is read or written. -/
  | use (name : String)
  | note (d : Diagnostic)
  /-- The current function needs a declaration. -/
  | declare (declaration : String)
  | candidate (c : Candidate)
deriving DecidableEq, Repr

/-- The outcome of a compile: what happened, and the result or the error that ended it. -/
structure Outcome (α : Type) where
  log : List Entry
  result : Except CompileError α

namespace Outcome

variable {α β : Type}

/-- The outcome of the first part, then of the second part for its result. -/
def bind (x : Outcome α) (f : α → Outcome β) : Outcome β :=
  match x.result with
  | .ok a =>
      let y := f a
      ⟨x.log ++ y.log, y.result⟩
  | .error e => ⟨x.log, .error e⟩

instance : Monad Outcome where
  pure a := ⟨[], .ok a⟩
  bind := bind

@[simp] theorem pure_eq (a : α) : (pure a : Outcome α) = ⟨[], .ok a⟩ := rfl

@[simp] theorem bind_ok (log : List Entry) (a : α) (f : α → Outcome β) :
    ((⟨log, .ok a⟩ : Outcome α) >>= f) = ⟨log ++ (f a).log, (f a).result⟩ := rfl

@[simp] theorem bind_error (log : List Entry) (e : CompileError) (f : α → Outcome β) :
    ((⟨log, .error e⟩ : Outcome α) >>= f) = ⟨log, .error e⟩ := rfl

theorem map_eq_bind (f : α → β) (x : Outcome α) :
    f <$> x = x >>= fun a => pure (f a) := rfl

instance : LawfulMonad Outcome := LawfulMonad.mk' Outcome
  (fun x => by obtain ⟨log, _ | a⟩ := x <;> simp [map_eq_bind])
  (fun a f => by simp)
  (fun x f g => by
    obtain ⟨log, _ | a⟩ := x
    · simp
    · simp only [bind_ok]
      cases h : f a with
      | mk log' r => cases r <;> simp)

/-- A sequence has a result when both of its parts have one. -/
theorem result_bind_eq_ok_iff {x : Outcome α} {f : α → Outcome β} {b : β} :
    (x >>= f).result = .ok b ↔ ∃ a, x.result = .ok a ∧ (f a).result = .ok b := by
  obtain ⟨log, _ | a⟩ := x <;> simp

def fail (e : CompileError) : Outcome α := ⟨[], .error e⟩

/-- A result or an error without a log. -/
def ofExcept (result : Except CompileError α) : Outcome α := ⟨[], result⟩

def entry (e : Entry) : Outcome Unit := ⟨[e], .ok ()⟩

def note (d : Diagnostic) : Outcome Unit := entry (.note d)

/-- Schedules a declaration for the current function. -/
def declare (declaration : String) : Outcome Unit := entry (.declare declaration)

end Outcome

/-- The block at an index of the current script. -/
def Scope.blockAt (s : Scope) (index : Nat) : Except CompileError Block :=
  match s.blocks[index]? with
  | some b => .ok b
  | none => .error (.missingBlock index)

def Entry.declaration? : Entry → Option String
  | .declare declaration => some declaration
  | _ => none

/-- Puts a text into an ascending list, unless it is there already. -/
def insertAscending (x : String) : List String → List String
  | [] => [x]
  | y :: ys =>
      if x < y then x :: y :: ys else if x = y then y :: ys else y :: insertAscending x ys

/-- The declarations in a log, in ascending order and each once. -/
def declarations (log : List Entry) : List String :=
  (log.filterMap Entry.declaration?).foldl (fun ds d => insertAscending d ds) []

/-- The outcome of a function: its declarations go into its own text and are not seen outside. -/
def Outcome.functionScope {α : Type} (x : Outcome α) : Outcome (α × List String) where
  log := x.log.filter fun e => e.declaration?.isNone
  result := x.result.map fun a => (a, declarations x.log)

end GameScript
