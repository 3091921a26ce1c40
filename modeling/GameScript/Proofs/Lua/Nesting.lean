import GameScript.Proofs.Lua.Grammar

/-! What is open at a place of a text: the brackets, the functions and the blocks around it, read off the tokens in
front of it alone. Where a text is derived from the grammar, each construct in it opens and closes as its form says,
so a text in which something goes on where it must not is not derived. -/

namespace GameScript
namespace Lua

/-- What is open at a place, innermost first: whether it is a conditional in which another clause may follow. -/
abbrev Nesting := List Bool

/-- What a symbol does to what is open. -/
inductive Move where
  | opens (clauses : Bool)
  /-- Closes what is innermost, whatever it is. -/
  | closes
  /-- Goes on with a conditional. -/
  | continues (clauses : Bool)
  /-- Closes what has been opened in front of it. -/
  | completes (clauses : Bool)
  | stays
deriving DecidableEq

namespace Move

def apply : Move → Nesting → Option Nesting
  | opens clauses, n => some (clauses :: n)
  | closes, _ :: n => some n
  | continues clauses, true :: n => some (clauses :: n)
  | completes true, true :: n | completes false, false :: n => some n
  | stays, n => some n
  | _, _ => none

theorem apply_append {m : Move} {n n' : Nesting} (h : m.apply n = some n') (rest : Nesting) :
    m.apply (n ++ rest) = some (n' ++ rest) := by
  unfold apply at h
  split at h <;> cases h <;> rfl

end Move

namespace Symbol

def openers : List String := ["(", "[", "\x7b", "function", "do", "repeat"]

def closers : List String := [")", "]", "\x7d", "until", "end"]

/-- The clauses of a conditional stand directly in it; in an ordered text none follows the one without a
condition. -/
def move (ordered : Bool) : Symbol → Move
  | fixed t =>
      if t = "if" then .opens true
      else if t = "elseif" then .continues true
      else if t = "else" then .continues !ordered
      else if openers.contains t then .opens false
      else if closers.contains t then .closes
      else .stays
  | tail => .completes true
  | body => .completes false
  | _ => .stays

/-- What a construct expects to be open, and closes. -/
def within : Symbol → Nesting
  | tail => [true]
  | body => [false]
  | _ => []

end Symbol

/-- What is open behind a form, where only certain symbols may stand outside of everything. -/
def behind (ordered : Bool) (ground : Symbol → Bool) : List Symbol → Nesting → Option Nesting
  | [], n => some n
  | s :: form, n =>
      if n.isEmpty && !ground s then none else ((s.move ordered).apply n).bind (behind ordered ground form)

section

variable {ordered : Bool} {ground ground' : Symbol → Bool} {form form' : List Symbol} {n n' : Nesting}

theorem behind_cons_eq_some {s : Symbol} : behind ordered ground (s :: form) n = some n' ↔
    (n = [] → ground s = true) ∧ ∃ m, (s.move ordered).apply n = some m ∧ behind ordered ground form m = some n' := by
  rw [behind]
  split_ifs with h
  · simp only [Bool.and_eq_true, List.isEmpty_iff, Bool.not_eq_true'] at h
    simp [h.1, h.2]
  · rw [Option.bind_eq_some_iff]
    refine ⟨fun hm => ⟨fun hn => ?_, hm⟩, fun hm => hm.2⟩
    by_contra hground
    exact h (by simp [hn, hground])

theorem behind_append : {form : List Symbol} → {n : Nesting} → behind ordered ground (form ++ form') n =
    (behind ordered ground form n).bind (behind ordered ground form')
  | [], _ => rfl
  | s :: form, n => by
    rw [List.cons_append, behind, behind]
    split_ifs
    · rfl
    · cases (s.move ordered).apply n with
      | none => rfl
      | some m => exact behind_append

/-- Inside of something that is open, a form does what it does alone. -/
theorem behind_inside {rest : Nesting} (hrest : rest = [] → ground' = ground) : {form : List Symbol} →
    {n n' : Nesting} → behind ordered ground' form n = some n' →
    behind ordered ground form (n ++ rest) = some (n' ++ rest)
  | [], _, _, h => by
    cases h
    rfl
  | s :: form, n, n', h => by
    obtain ⟨hground, m, hm, hform⟩ := behind_cons_eq_some.mp h
    refine behind_cons_eq_some.mpr ⟨fun hempty => ?_, m ++ rest, Move.apply_append hm rest, behind_inside hrest hform⟩
    obtain ⟨rfl, rfl⟩ := List.append_eq_nil_iff.mp hempty
    exact hrest rfl ▸ hground rfl

end

/-- Each form of a construct closes what the construct closes. -/
def closesForms (ordered : Bool) (ground : Symbol → Bool) (s : Symbol) : Bool :=
  (s.forms ordered).all fun inner => behind ordered ground inner s.within == some []

theorem closesForms_all (ordered : Bool) (s : Symbol) : closesForms ordered (fun _ => true) s = true := by
  cases s with
  | fixed t => rfl
  | _ => cases ordered <;> decide

/-- What may stand outside of everything consists of what may stand there. -/
def Grounded (ordered : Bool) (ground : Symbol → Bool) : Prop :=
  ∀ s : Symbol, (s.within = [] → ground s = true) → closesForms ordered ground s = true

theorem Grounded.all (ordered : Bool) : Grounded ordered fun _ => true := fun s _ => closesForms_all ordered s

/-- A construct only closes what it expects to be open. -/
theorem eq_within_append {ordered : Bool} {s : Symbol} {inner : List Symbol} (hinner : inner ∈ s.forms ordered)
    {n n' : Nesting} (hn : (s.move ordered).apply n = some n') : n = s.within ++ n' := by
  have closed : ∀ c, (Move.completes c).apply n = some n' → n = c :: n' := by
    intro c hc
    unfold Move.apply at hc
    split at hc <;> simp_all
  cases s with
  | fixed t => cases hinner
  | tail => exact closed true hn
  | body => exact closed false hn
  | _ => exact Option.some.inj hn

theorem behind_forms {ordered : Bool} {ground : Symbol → Bool} (h : Grounded ordered ground) {s : Symbol}
    {inner : List Symbol} (hinner : inner ∈ s.forms ordered) {n n' : Nesting} (hground : n = [] → ground s = true)
    (hn : (s.move ordered).apply n = some n') : behind ordered ground inner n = some n' := by
  obtain rfl := eq_within_append hinner hn
  cases n' with
  | nil =>
    rw [List.append_nil] at hground ⊢
    exact eq_of_beq (List.all_eq_true.mp (h s hground) inner hinner)
  | cons c n' =>
    have alone := eq_of_beq (List.all_eq_true.mp (closesForms_all ordered s) inner hinner)
    exact behind_inside (fun hempty => absurd hempty (List.cons_ne_nil c n')) alone

/-- A derived text opens and closes what its form does. -/
theorem Derives.behind {ordered : Bool} {ground : Symbol → Bool} (h : Grounded ordered ground) {form : List Symbol}
    {ts : List Token} (hts : Derives ordered form ts) {n n' : Nesting} (hn : behind ordered ground form n = some n') :
    behind ordered ground (ts.map Token.shape) n = some n' := by
  induction hts generalizing n n' with
  | nil => exact hn
  | @token t s form ts ht _ ih =>
    obtain ⟨hground, m, hm, hform⟩ := behind_cons_eq_some.mp hn
    subst ht
    exact behind_cons_eq_some.mpr ⟨hground, m, hm, ih hform⟩
  | @expand s inner form ts us hinner _ _ ihinner ih =>
    obtain ⟨hground, m, hm, hform⟩ := behind_cons_eq_some.mp hn
    rw [List.map_append, behind_append, ihinner (behind_forms h hinner hground hm)]
    exact ih hform

end Lua
end GameScript
