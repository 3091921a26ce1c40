import GameScript.Compile.Outcome
import GameScript.Table

/-! The ledger of a unit: the variables with their number of uses, the diagnostics, the mimic
candidates, and the declarations that the open functions have scheduled. It is built from the logs of
what was compiled, entry by entry. -/

namespace GameScript

/-- What has been recorded so far. -/
structure Ledger where
  /-- The variables in order of their first use, with the number of uses. -/
  usage : Table String Nat
  /-- The messages, each once, in order of their first appearance. -/
  diagnostics : List String
  /-- The handlers that only mimic a known tile, in order. -/
  candidates : List Candidate
  /-- The declarations of the open functions, innermost function first. -/
  functions : List (List String)
deriving DecidableEq, Repr

namespace Ledger

def empty : Ledger := ⟨[], [], [], []⟩

instance : Inhabited Ledger := ⟨empty⟩

def uses (l : Ledger) (name : String) : Nat := (Table.get? l.usage name).getD 0

/-- Records a message, unless it is there already. -/
def note (l : Ledger) (message : String) : Ledger :=
  if message ∈ l.diagnostics then l else { l with diagnostics := l.diagnostics ++ [message] }

/-- Records an entry. A declaration outside of every function is only noted. -/
def record (l : Ledger) : Entry → Ledger
  | .use name => { l with usage := Table.put l.usage name (l.uses name + 1) }
  | .note d => l.note d.message
  | .declare declaration =>
      match l.functions with
      | ds :: rest => { l with functions := insertAscending declaration ds :: rest }
      | [] => l.note (Diagnostic.strayAlias declaration).message
  | .candidate c => { l with candidates := l.candidates ++ [c] }

def recordAll (l : Ledger) (log : List Entry) : Ledger := log.foldl record l

@[simp] theorem recordAll_append (l : Ledger) (log log' : List Entry) :
    l.recordAll (log ++ log') = (l.recordAll log).recordAll log' := List.foldl_append ..

def openFunction (l : Ledger) : Ledger := { l with functions := [] :: l.functions }

/-- Closes the innermost function: its declarations, and the ledger without it. -/
def closeFunction (l : Ledger) : List String × Ledger :=
  match l.functions with
  | ds :: rest => (ds, { l with functions := rest })
  | [] => ([], l)

end Ledger

/-- A scope and what has been recorded so far: all that there is while a unit is compiled. -/
structure Context where
  scope : Scope
  ledger : Ledger

namespace Context

def initial (options : Options) : Context := ⟨Scope.initial options, Ledger.empty⟩

def record (c : Context) (log : List Entry) : Context :=
  { c with ledger := c.ledger.recordAll log }

/-- Compiles something in a context: its result, and the context with its log recorded. -/
def run {α : Type} (c : Context) (f : Scope → Outcome α) : Except CompileError α × Context :=
  let x := f c.scope
  (x.result, c.record x.log)

end Context
end GameScript
