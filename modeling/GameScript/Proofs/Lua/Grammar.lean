import GameScript.Proofs.Lua.Reading

/-! The grammar of the output language, as lists of what each construct may consist of, and the token lists that it
derives. A conditional has its clauses in order, the one without a condition last; with `ordered = false` they may
stand in any order, which is what a text looks like where nobody checks them. -/

namespace GameScript
namespace Lua

/-- What a form consists of: what the grammar sees of a token, or a construct. -/
inductive Symbol where
  /-- A keyword or a symbol. -/
  | fixed (text : String)
  | name
  | numeral
  | literal
  | block | last | ending | stats | stat | tail | step | init | locals | attrib | path | body | parameters
  | names | targets | target | access | invocation | calls | compound
  | exps | exp | operations | binop | unop | operand | simple | suffixed | primary | suffixes | suffix | arguments
  | table | fields | separator | field
deriving DecidableEq, Repr

instance : Coe String Symbol := ⟨.fixed⟩

def Token.shape : Token → Symbol
  | word w => if keywords.contains w then .fixed w else .name
  | numeral _ => .numeral
  | literal _ => .literal
  | symbol s => .fixed s

/-- What a construct may consist of; a token has no such forms. -/
def Symbol.forms (ordered : Bool) : Symbol → List (List Symbol)
  | fixed _ | name | numeral | literal => []
  | block => [[stats, last]]
  | last => [[], ["return", ending], ["return", exps, ending]]
  | ending => [[], [";"]]
  | stats => [[], [stat, stats]]
  | stat => [
      [";"], [targets, "=", exps], [target, compound, exp], [invocation], ["do", block, "end"],
      ["while", exp, "do", block, "end"], ["repeat", block, "until", exp], ["if", exp, "then", block, tail],
      ["for", name, "=", exp, ",", exp, step, "do", block, "end"], ["for", names, "in", exps, "do", block, "end"],
      ["function", name, path, body], ["local", "function", name, body], ["local", locals, init],
      ["::", name, "::"], ["break"], ["goto", name]]
  | tail => ["end"] :: ["elseif", exp, "then", block, tail] :: ["else", block, "end"] ::
      if ordered then [] else [["else", block, tail]]
  | step => [[], [",", exp]]
  | init => [[], ["=", exps]]
  | locals => [[name, attrib], [name, attrib, ",", locals]]
  | attrib => [[], ["<", name, ">"]]
  | path => [[], [".", name, path], [":", name]]
  | body => [["(", parameters, ")", block, "end"]]
  | parameters => [[], ["..."], [names], [names, ",", "..."]]
  | names => [[name], [name, ",", names]]
  | targets => [[target], [target, ",", targets]]
  | target => [[name], [primary, access]]
  | access => [[".", name], ["[", exp, "]"], [suffix, access]]
  | invocation => [[primary, calls]]
  | calls => [[arguments], [":", name, arguments], [suffix, calls]]
  | compound => [["+="], ["-="], ["*="], ["/="]]
  | exps => [[exp], [exp, ",", exps]]
  | exp => [[operand, operations], [unop, exp]]
  | operations => [[], [binop, exp]]
  | binop => [["+"], ["-"], ["*"], ["/"], ["//"], ["%"], ["^"], [".."], ["&"], ["|"], ["~"], ["<<"], [">>"], ["<"],
      ["<="], [">"], [">="], ["=="], ["~="], ["and"], ["or"]]
  | unop => [["-"], ["not"], ["#"], ["~"]]
  | operand => [[simple], ["-", numeral]]
  | simple => [["nil"], ["false"], ["true"], [numeral], [literal], ["..."], ["function", body], [table], [suffixed]]
  | suffixed => [[primary, suffixes]]
  | primary => [[name], ["(", exp, ")"]]
  | suffixes => [[], [suffix, suffixes]]
  | suffix => [[".", name], ["[", exp, "]"], [arguments], [":", name, arguments]]
  | arguments => [["(", ")"], ["(", exps, ")"], [table], [literal]]
  | table => [["\x7b", fields, "\x7d"]]
  | fields => [[], [field], [field, separator, fields]]
  | separator => [[","], [";"]]
  | field => [["[", exp, "]", "=", exp], [name, "=", exp], [exp]]

theorem Symbol.forms_subset (ordered : Bool) (s : Symbol) : s.forms true ⊆ s.forms ordered := by
  cases ordered with
  | true => exact List.Subset.refl _
  | false =>
    cases s with
    | tail => decide
    | _ => exact List.Subset.refl _

/-- The tokens are what a form stands for. -/
inductive Derives (ordered : Bool) : List Symbol → List Token → Prop where
  | nil : Derives ordered [] []
  | token {t : Token} {s : Symbol} {form : List Symbol} {ts : List Token} :
      t.shape = s → Derives ordered form ts → Derives ordered (s :: form) (t :: ts)
  | expand {s : Symbol} {inner form : List Symbol} {ts us : List Token} :
      inner ∈ s.forms ordered → Derives ordered inner ts → Derives ordered form us →
      Derives ordered (s :: form) (ts ++ us)

namespace Derives

variable {ordered : Bool} {form form' : List Symbol} {ts us : List Token} {s : Symbol}

theorem append (h : Derives ordered form ts) (h' : Derives ordered form' us) :
    Derives ordered (form ++ form') (ts ++ us) := by
  induction h with
  | nil => exact h'
  | token ht _ ih => exact .token ht ih
  | @expand s inner form ts us' hs hinner _ _ ih =>
    rw [List.append_assoc]
    exact .expand hs hinner ih

/-- The tokens of a form are those of its first symbol and those of the others. -/
theorem cons_iff : Derives ordered (s :: form) ts ↔
    ∃ us vs, ts = us ++ vs ∧ Derives ordered [s] us ∧ Derives ordered form vs := by
  constructor
  · intro h
    cases h with
    | @token t _ _ ts ht h => exact ⟨[t], ts, rfl, .token ht .nil, h⟩
    | @expand _ inner _ us vs hs hinner h => exact ⟨us, vs, rfl, us.append_nil ▸ .expand hs hinner .nil, h⟩
  · rintro ⟨us, vs, rfl, h, h'⟩
    exact h.append h'

theorem append_iff : {form : List Symbol} → {ts : List Token} → (Derives ordered (form ++ form') ts ↔
    ∃ us vs, ts = us ++ vs ∧ Derives ordered form us ∧ Derives ordered form' vs)
  | [], ts => by
    constructor
    · exact fun h => ⟨[], ts, rfl, .nil, h⟩
    · rintro ⟨us, vs, rfl, h, h'⟩
      exact h.append h'
  | s :: form, ts => by
    constructor
    · intro h
      obtain ⟨us, vs, rfl, hs, h⟩ := cons_iff.mp h
      obtain ⟨us', vs', rfl, hform, h⟩ := append_iff.mp h
      exact ⟨us ++ us', vs', (List.append_assoc ..).symm, hs.append hform, h⟩
    · rintro ⟨us, vs, rfl, h, h'⟩
      exact h.append h'

/-- Where the last symbol of a form is one that goes on with itself or ends with nothing, more may be put behind
the tokens. -/
theorem extend {E : Symbol → Prop} (htoken : ∀ t : Token, ¬ E t.shape)
    (hforms : ∀ e, E e → ∀ inner ∈ e.forms ordered,
      inner = [] ∧ Derives ordered [e] us ∨ ∃ front e', E e' ∧ inner = front ++ [e'])
    (h : Derives ordered form ts) {front : List Symbol} {e : Symbol} (he : E e) (hform : form = front ++ [e]) :
    Derives ordered form (ts ++ us) := by
  induction h generalizing front e with
  | nil => cases front <;> cases hform
  | @token t s form ts ht h ih =>
    cases front with
    | nil =>
      obtain ⟨rfl, -⟩ := List.cons.inj hform
      exact absurd (ht ▸ he) (htoken t)
    | cons s' front => exact .token ht (ih he (List.cons.inj hform).2)
  | @expand s inner form ts vs hs hinner h ihinner ih =>
    cases front with
    | nil =>
      obtain ⟨rfl, rfl⟩ := List.cons.inj hform
      cases h
      rw [List.append_nil]
      rcases hforms s he inner hs with ⟨rfl, hus⟩ | ⟨front, e', he', hend⟩
      · cases hinner
        exact hus
      · have longer := Derives.expand hs (ihinner he' hend) .nil
        rwa [List.append_nil] at longer
    | cons s' front =>
      rw [List.append_assoc]
      exact .expand hs hinner (ih he (List.cons.inj hform).2)

theorem shape_ne {s : Symbol} (hs : s.forms true ≠ []) (t : Token) : t.shape ≠ s := by
  rintro rfl
  apply hs
  cases t with
  | word w =>
    rw [Token.shape]
    split <;> rfl
  | _ => rfl

/-- Statements behind statements. -/
theorem stats (h : Derives ordered [.stats] ts) (h' : Derives ordered [.stats] us) :
    Derives ordered [.stats] (ts ++ us) := by
  refine extend (E := (· = .stats)) (fun t => shape_ne (by decide) t) ?_ h rfl (List.nil_append _).symm
  rintro e rfl inner hinner
  simp only [Symbol.forms, List.mem_cons, List.not_mem_nil, or_false] at hinner
  rcases hinner with rfl | rfl
  · exact .inl ⟨rfl, h'⟩
  · exact .inr ⟨[.stat], .stats, rfl, rfl⟩

/-- A binary operator and what follows it behind an expression. -/
theorem operations (h : Derives ordered [.exp] ts) (h' : Derives ordered [.operations] us) :
    Derives ordered [.exp] (ts ++ us) := by
  refine extend (E := fun s => s = .exp ∨ s = .operations) (fun t => ?_) ?_ h (.inl rfl) (List.nil_append _).symm
  · exact not_or.mpr ⟨shape_ne (by decide) t, shape_ne (by decide) t⟩
  · rintro e (rfl | rfl) inner hinner <;>
      simp only [Symbol.forms, List.mem_cons, List.not_mem_nil, or_false] at hinner
    · rcases hinner with rfl | rfl
      · exact .inr ⟨[.operand], .operations, .inr rfl, rfl⟩
      · exact .inr ⟨[.unop], .exp, .inl rfl, rfl⟩
    · rcases hinner with rfl | rfl
      · exact .inl ⟨rfl, h'⟩
      · exact .inr ⟨[.binop], .exp, .inl rfl, rfl⟩

end Derives

/-! ### Forms that stand for others -/

/-- A form is one of those that another one stands for, as a search that can be run, of at most so many steps. -/
def isInstanceWithin : Nat → List Symbol → List Symbol → Bool
  | 0, target, form => target.isEmpty && form.isEmpty
  | _ + 1, [], form => form.isEmpty
  | n + 1, s :: target, form =>
      (form.head? == some s && isInstanceWithin n target form.tail) ||
      (s.forms true).any fun inner => isInstanceWithin n (inner ++ target) form

/-- No construct starts with itself, so each symbol of a form is reached in few steps. -/
def isInstance (target form : List Symbol) : Bool := isInstanceWithin (20 * (form.length + 1)) target form

theorem Derives.of_isInstanceWithin {ordered : Bool} : (n : Nat) → {target form : List Symbol} →
    isInstanceWithin n target form = true → {ts : List Token} → Derives ordered form ts → Derives ordered target ts
  | 0, target, form, h, ts, hts => by
    obtain ⟨htarget, hform⟩ := Bool.and_eq_true_iff.mp h
    rwa [List.isEmpty_iff.mp htarget, ← List.isEmpty_iff.mp hform]
  | _ + 1, [], form, h, ts, hts => by
    rwa [List.isEmpty_iff.mp h] at hts
  | n + 1, s :: target, form, h, ts, hts => by
    rw [isInstanceWithin, Bool.or_eq_true_iff] at h
    rcases h with h | h
    · obtain ⟨hs, hrest⟩ := Bool.and_eq_true_iff.mp h
      cases form with
      | nil => cases hs
      | cons s' form =>
        obtain rfl := Option.some.inj (eq_of_beq hs)
        obtain ⟨us, vs, rfl, hus, hvs⟩ := Derives.cons_iff.mp hts
        exact hus.append (of_isInstanceWithin n hrest hvs)
    · obtain ⟨inner, hinner, h⟩ := List.any_eq_true.mp h
      obtain ⟨us, vs, rfl, hus, hvs⟩ := append_iff.mp (of_isInstanceWithin n h hts)
      exact .expand (s.forms_subset ordered hinner) hus hvs

theorem Derives.of_isInstance {ordered : Bool} {target form : List Symbol} (h : isInstance target form = true)
    {ts : List Token} (hts : Derives ordered form ts) : Derives ordered target ts := of_isInstanceWithin _ h hts

example : isInstance [.operand] ["(", "(", .name, ".", .name, "%", .numeral, ")", "+", .numeral, ")"] = true := by
  decide +kernel

end Lua
end GameScript
