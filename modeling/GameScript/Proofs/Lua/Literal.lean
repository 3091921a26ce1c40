import GameScript.Proofs.Lua.Comment

/-! String literals as a reader of the output finds them. A literal ends at its first quote that no backslash
precedes, and it must end on its line. What is quoted reads as itself, whatever follows, unless there is a
carriage return in it: that ends a line as well, but is written as it is. -/

namespace GameScript
namespace Lua

/-- What a backslash and one more character stand for. -/
def escaped? (c : Char) : Option Char :=
  [('a', '\x07'), ('b', '\x08'), ('f', '\x0c'), ('n', '\n'), ('r', '\r'), ('t', '\t'), ('v', '\x0b'),
    ('\\', '\\'), ('"', '"'), ('\x27', '\x27'), ('\n', '\n')].lookup c

/-- The rest of a literal behind its opening quote: what it says, and what follows its closing quote. -/
def literalBody? : List Char → Option (List Char × List Char)
  | [] => none
  | '"' :: rest => some ([], rest)
  | '\\' :: c :: cs => do
      let d ← escaped? c
      let (said, rest) ← literalBody? cs
      return (d :: said, rest)
  | c :: cs =>
      if isLineBreak c || c == '\\' then none
      else (literalBody? cs).map fun (said, rest) => (c :: said, rest)

/-- The string that a text starts with as a literal, and what follows the literal. -/
def readLiteral? : List Char → Option (String × List Char)
  | '"' :: cs => (literalBody? cs).map fun (said, rest) => (String.ofList said, rest)
  | _ => none

/-- A character that stands for itself in a literal. -/
theorem literalBody?_cons {c : Char} (hquote : c ≠ '"') (hback : c ≠ '\\') (cs : List Char) :
    literalBody? (c :: cs) =
      if isLineBreak c then none else (literalBody? cs).map fun (said, rest) => (c :: said, rest) := by
  have plain : (isLineBreak c || c == '\\') = isLineBreak c := by simp [hback]
  rw [literalBody?.eq_def]
  split
  · next heq => cases heq
  · next heq => exact absurd (List.cons.inj heq).1 hquote
  · next heq => exact absurd (List.cons.inj heq).1 hback
  · next heq =>
    obtain ⟨rfl, rfl⟩ := List.cons.inj heq
    rw [plain]

/-- A character that is written in a literal is read from it. -/
theorem literalBody?_escapeChar {c : Char} (h : c ≠ '\r') (cs : List Char) :
    literalBody? (escapeChar c ++ cs) = (literalBody? cs).map fun (said, rest) => (c :: said, rest) := by
  have pair : ∀ d, escaped? d = some c → literalBody? ('\\' :: d :: cs) =
      (literalBody? cs).map fun (said, rest) => (c :: said, rest) := by
    intro d hd
    rw [literalBody?, hd]
    cases literalBody? cs <;> rfl
  unfold escapeChar
  split_ifs with hback hline hfeed hquote
  · exact pair '\\' (by rw [hback]; rfl)
  · exact pair 'n' (by rw [hline]; rfl)
  · exact pair 'f' (by rw [hfeed]; rfl)
  · exact pair '"' (by rw [hquote]; rfl)
  · have stays : isLineBreak c = false := by simp [isLineBreak, hline, h]
    rw [List.singleton_append, literalBody?_cons hquote hback, stays, if_neg Bool.false_ne_true]

theorem literalBody?_flatMap_escapeChar (rest : List Char) : (cs : List Char) →
    literalBody? (cs.flatMap escapeChar ++ '"' :: rest) = if '\r' ∈ cs then none else some (cs, rest)
  | [] => rfl
  | c :: cs => by
    rw [List.flatMap_cons, List.append_assoc]
    by_cases hc : c = '\r'
    · subst hc
      rw [if_pos List.mem_cons_self]
      rfl
    · rw [literalBody?_escapeChar hc, literalBody?_flatMap_escapeChar rest cs]
      have tail : '\r' ∈ c :: cs ↔ '\r' ∈ cs := by simp [Ne.symm hc]
      simp only [tail]
      split_ifs <;> rfl

/-- What is quoted reads as itself and leaves what follows, just when it has no carriage return; with one there
is no literal to read. -/
theorem quote_reads_back (s : String) (rest : List Char) :
    readLiteral? ((quote s).toList ++ rest) = if '\r' ∈ s.toList then none else some (s, rest) := by
  rw [toList_quote, List.cons_append, List.append_assoc, List.singleton_append, readLiteral?,
    literalBody?_flatMap_escapeChar]
  split_ifs with h
  · rfl
  · simp

/-- A carriage return is written as it is, and ends the line that the literal stands on. -/
theorem quote_reads_back_return :
    quote "a\rb" = "\"a\rb\"" ∧ readLiteral? ((quote "a\rb").toList ++ []) ≠ some ("a\rb", []) ∧
      ∀ rest, readLiteral? ((quote "a\rb").toList ++ rest) = none := by
  have broken : ∀ rest, readLiteral? ((quote "a\rb").toList ++ rest) = none := fun rest => by
    have inside : '\r' ∈ "a\rb".toList := by decide
    rw [toList_quote, List.cons_append, List.append_assoc, List.singleton_append, readLiteral?,
      literalBody?_flatMap_escapeChar, if_pos inside, Option.map_none]
  refine ⟨by decide +kernel, ?_, broken⟩
  rw [broken]
  exact (Option.some_ne_none _).symm

end Lua
end GameScript
