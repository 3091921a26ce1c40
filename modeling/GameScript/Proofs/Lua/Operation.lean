import GameScript.Proofs.Lua.Nesting

/-! Binary operators and their operands. Outside of brackets, functions and blocks an expression is cut at its binary
operators, and these bind as the precedences of the language say; an assignment that is combined with an operator
takes the whole expression behind it for the right operand. -/

namespace GameScript
namespace Lua

/-! ### Cutting at operators -/

/-- What stands between the operands of an expression. -/
def Symbol.operator? : Symbol → Option String
  | .fixed t => if (Symbol.binop.forms true).contains [.fixed t] then some t else none
  | _ => none

/-- An expression as its first operand, and each further one with the operator in front of it. -/
abbrev Operands := List Token × List (String × List Token)

/-- The operands of an expression, given what is open and the operand so far. An operator with no operand in front
of it is one of a single operand. -/
def operandsFrom : Nesting → List Token → List Token → Option Operands
  | n, operand, [] => if n.isEmpty then some (operand, []) else none
  | n, operand, t :: ts =>
      match if n.isEmpty && !operand.isEmpty then t.shape.operator? else none with
      | some op => (operandsFrom [] [] ts).map fun p => (operand, (op, p.1) :: p.2)
      | none => ((t.shape.move false).apply n).bind fun n' => operandsFrom n' (operand ++ [t]) ts

def operands? (ts : List Token) : Option Operands := operandsFrom [] [] ts

/-- What makes an assignment, and the operator that the assigned place is combined with. -/
def storing : List (String × Option String) :=
  [("=", none), ("+=", some "+"), ("-=", some "-"), ("*=", some "*"), ("/=", some "/")]

def Symbol.storing? : Symbol → Option (Option String)
  | .fixed t => storing.lookup t
  | _ => none

/-- What may stand in an operand outside of everything that is opened in it. -/
def Symbol.inOperand : Symbol → Bool
  | fixed t => (Symbol.fixed t).operator?.isNone && (Symbol.fixed t).storing?.isNone
  | name | numeral | literal | simple | table | suffixed | primary | suffixes | suffix | arguments | target | access =>
      true
  | _ => false

theorem Symbol.inOperand_spec {s : Symbol} (h : s.inOperand = true) : s.operator? = none ∧ s.storing? = none := by
  cases s with
  | fixed t =>
    obtain ⟨hop, hstoring⟩ := Bool.and_eq_true_iff.mp h
    exact ⟨Option.isNone_iff_eq_none.mp hop, Option.isNone_iff_eq_none.mp hstoring⟩
  | _ => exact ⟨rfl, rfl⟩

theorem grounded_inOperand : Grounded false Symbol.inOperand := by
  intro s hs
  cases s with
  | fixed t => rfl
  | _ => first | decide | exact absurd (hs rfl) (by decide)

/-- A symbol that is no construct stands for one token. -/
theorem Derives.eq_singleton {ordered : Bool} {s : Symbol} {ts : List Token} (h : Derives ordered [s] ts)
    (hs : s.forms ordered = []) : ∃ t, ts = [t] ∧ t.shape = s := by
  cases h with
  | token ht h =>
    cases h
    exact ⟨_, rfl, ht⟩
  | expand hinner _ _ =>
    rw [hs] at hinner
    cases hinner

/-- A construct that is never empty. -/
def Symbol.isSolid : Symbol → Bool
  | block | last | ending | stats | step | init | attrib | path | parameters | operations | suffixes | fields => false
  | _ => true

theorem Derives.ne_nil {ordered : Bool} {form : List Symbol} {ts : List Token} (h : Derives ordered form ts)
    (hform : form.any Symbol.isSolid = true) : ts ≠ [] := by
  have solid : ∀ s : Symbol, s.isSolid = true → ∀ inner ∈ s.forms ordered, inner.any Symbol.isSolid = true := by
    intro s hs
    cases s with
    | fixed t => exact fun _ h => nomatch h
    | _ => first | exact absurd hs (by decide) | (cases ordered <;> decide)
  induction h with
  | nil => cases hform
  | token _ _ _ => exact List.cons_ne_nil _ _
  | @expand s inner form ts us hinner _ _ ihinner ih =>
    rw [List.any_cons, Bool.or_eq_true_iff] at hform
    intro hempty
    obtain ⟨hts, hus⟩ := List.append_eq_nil_iff.mp hempty
    exact hform.elim (fun hs => ihinner (solid s hs inner hinner) hts) fun hrest => ih hrest hus

/-- Tokens among which nothing outside ends an operand belong to it. -/
theorem operandsFrom_append {rest : List Token} : {ts : List Token} → {n n' : Nesting} → {operand : List Token} →
    behind false Symbol.inOperand (ts.map Token.shape) n = some n' →
    operandsFrom n operand (ts ++ rest) = operandsFrom n' (operand ++ ts) rest
  | [], n, n', operand, h => by
    cases h
    rw [List.nil_append, List.append_nil]
  | t :: ts, n, n', operand, h => by
    obtain ⟨hground, m, hm, hts⟩ := behind_cons_eq_some.mp h
    have inside : (if n.isEmpty && !operand.isEmpty then t.shape.operator? else none) = none := by
      split_ifs with hempty
      · exact (Symbol.inOperand_spec (hground (List.isEmpty_iff.mp (Bool.and_eq_true_iff.mp hempty).1))).1
      · rfl
    rw [List.cons_append, operandsFrom, inside]
    simp only [hm, Option.bind_some]
    rw [operandsFrom_append hts, List.append_assoc]
    rfl

/-- The operand in front ends at an operator. -/
theorem operandsFrom_operator {operand ts : List Token} {t : Token} {op : String} (hoperand : operand ≠ [])
    (ht : t.shape.operator? = some op) :
    operandsFrom [] operand (t :: ts) = (operands? ts).map fun p => (operand, (op, p.1) :: p.2) := by
  rw [operandsFrom, List.isEmpty_nil, List.isEmpty_eq_false_iff.mpr hoperand]
  simp only [Bool.not_false, Bool.and_self, if_true, ht]
  rfl

/-- A construct that stands outside is one operand, whatever follows. -/
theorem operands?_quiet {s : Symbol} (hs : s.inOperand = true) (hmove : s.move false = .stays) {ts : List Token}
    (rest : List Token) (hts : Derives false [s] ts) : operands? (ts ++ rest) = operandsFrom [] ts rest := by
  have quiet : behind false Symbol.inOperand [s] [] = some [] := by
    rw [behind, hs, hmove]
    rfl
  exact operandsFrom_append (hts.behind grounded_inOperand quiet)

/-- An operand is read as one, also where it is a number with a sign. -/
theorem operands?_operand {ts : List Token} (hts : Derives false [.operand] ts) (rest : List Token) :
    operands? (ts ++ rest) = operandsFrom [] ts rest := by
  cases hts with
  | token ht _ => exact absurd ht (Derives.shape_ne (by decide) _)
  | @expand _ inner _ us vs hinner hus hvs =>
    cases hvs
    rw [List.append_nil]
    simp only [Symbol.forms, List.mem_cons, List.not_mem_nil, or_false] at hinner
    rcases hinner with rfl | rfl
    · exact operands?_quiet rfl rfl rest hus
    · obtain ⟨sign, digits, rfl, hsign, hdigits⟩ := Derives.cons_iff.mp hus
      obtain ⟨t, rfl, ht⟩ := hsign.eq_singleton rfl
      have number : behind false Symbol.inOperand (digits.map Token.shape) [] = some [] :=
        hdigits.behind grounded_inOperand rfl
      rw [List.append_assoc, List.singleton_append, operands?, operandsFrom, ht]
      exact operandsFrom_append number

/-! ### Assignments -/

/-- An expression as the language reads it. -/
inductive Operation where
  | operand (ts : List Token)
  | apply (operator : String) (left right : Operation)
deriving DecidableEq

/-- How strongly an operator binds what is on its left and on its right. -/
def strength (operator : String) : Nat × Nat :=
  if operator = "or" then (1, 1)
  else if operator = "and" then (2, 2)
  else if ["<", ">", "<=", ">=", "~=", "=="].contains operator then (3, 3)
  else if operator = "|" then (4, 4)
  else if operator = "~" then (5, 5)
  else if operator = "&" then (6, 6)
  else if ["<<", ">>"].contains operator then (7, 7)
  else if operator = ".." then (9, 8)
  else if ["+", "-"].contains operator then (10, 10)
  else if operator = "^" then (14, 13)
  else (11, 11)

namespace Operation

/-- One more operand behind an expression: it goes to what binds it most strongly. -/
def push (operator : String) (ts : List Token) : Operation → Operation
  | operand us => apply operator (operand us) (operand ts)
  | apply o left right =>
      if (strength o).2 < (strength operator).1 then apply o left (push operator ts right)
      else apply operator (apply o left right) (operand ts)

def ofOperands (p : Operands) : Operation := p.2.foldl (fun e q => e.push q.1 q.2) (operand p.1)

/-- The value of an expression, whatever operands and operators mean. -/
def value {α : Type} (meaning : List Token → α) (operator : String → α → α → α) : Operation → α
  | operand ts => meaning ts
  | apply o left right => operator o (value meaning operator left) (value meaning operator right)

/-- Text put together binds the operands from the right. -/
theorem push_apply_concat (left right : Operation) (ts : List Token) :
    (apply ".." left right).push ".." ts = apply ".." left (right.push ".." ts) := if_pos (by decide)

end Operation

/-- The place of an assignment and what is stored there, given what is open and the place so far. -/
def assignmentFrom : Nesting → List Token → List Token → Option (List Token × Operation)
  | _, _, [] => none
  | n, place, t :: ts =>
      match if n.isEmpty then t.shape.storing? else none with
      | some none => (operands? ts).map fun p => (place, .ofOperands p)
      | some (some op) => (operands? ts).map fun p => (place, .apply op (.operand place) (.ofOperands p))
      | none => ((t.shape.move false).apply n).bind fun n' => assignmentFrom n' (place ++ [t]) ts

def assignment? (ts : List Token) : Option (List Token × Operation) := assignmentFrom [] [] ts

theorem assignmentFrom_append {rest : List Token} : {ts : List Token} → {n n' : Nesting} → {place : List Token} →
    behind false Symbol.inOperand (ts.map Token.shape) n = some n' →
    assignmentFrom n place (ts ++ rest) = assignmentFrom n' (place ++ ts) rest
  | [], n, n', place, h => by
    cases h
    rw [List.nil_append, List.append_nil]
  | t :: ts, n, n', place, h => by
    obtain ⟨hground, m, hm, hts⟩ := behind_cons_eq_some.mp h
    have inside : (if n.isEmpty then t.shape.storing? else none) = none := by
      split_ifs with hempty
      · exact (Symbol.inOperand_spec (hground (List.isEmpty_iff.mp hempty))).2
      · rfl
    rw [List.cons_append, assignmentFrom, inside]
    simp only [hm, Option.bind_some]
    rw [assignmentFrom_append hts, List.append_assoc]
    rfl

end Lua
end GameScript
