import GameScript.Proofs.Lua.Literal
import GameScript.Proofs.Lua.Number

/-! The tokens of a text, as a reader of the output finds them. Blanks and comments stand between tokens; a name, a
numeral or a symbol goes as far as it can, and a literal to its closing quote. What the compiler never writes is
refused: long literals, literals in other quotes, hexadecimal numerals, and comments without an end. -/

namespace GameScript
namespace Lua

inductive Token where
  /-- A name or a keyword. -/
  | word (w : String)
  | numeral (n : String)
  | literal (s : String)
  | symbol (s : String)
deriving DecidableEq, Repr

def Token.spelled : Token → List Char
  | word w => w.toList
  | numeral n => n.toList
  | literal s => (quote s).toList
  | symbol s => s.toList

/-- All symbols. Every beginning of a symbol is one. -/
def symbols : List (List Char) :=
  [['+'], ['-'], ['*'], ['/'], ['%'], ['^'], ['#'], ['&'], ['~'], ['|'], ['<'], ['>'], ['='], ['('], [')'], ['\x7b'],
   ['\x7d'], ['['], [']'], [';'], [':'], [','], ['.'], ['/', '/'], ['=', '='], ['~', '='], ['<', '='], ['>', '='],
   ['<', '<'], ['>', '>'], [':', ':'], ['.', '.'], ['.', '.', '.'], ['+', '='], ['-', '='], ['*', '='], ['/', '=']]

/-! ### One token -/

/-- Characters that a numeral goes on with. -/
def isNumeralChar (c : Char) : Bool := isIdentifierChar c || c == '.'

/-- What goes on a numeral that a text starts with, and what follows it. A sign belongs to it behind an exponent
mark. -/
def numeralSpan : List Char → List Char × List Char
  | [] => ([], [])
  | [c] => if isNumeralChar c then ([c], []) else ([], [c])
  | c :: sign :: cs =>
      if (c == 'e' || c == 'E') && (sign == '+' || sign == '-') then
        let (more, rest) := numeralSpan cs
        (c :: sign :: more, rest)
      else if isNumeralChar c then
        let (more, rest) := numeralSpan (sign :: cs)
        (c :: more, rest)
      else ([], c :: sign :: cs)

/-- What may follow the digits of a numeral: nothing, or an exponent with a sign or without one. -/
def isExponent : List Char → Bool
  | [] => true
  | c :: sign :: ds =>
      (c == 'e' || c == 'E') && (sign.isDigit || (sign == '+' || sign == '-') && !ds.isEmpty) &&
        ds.all Char.isDigit
  | _ => false

/-- Digits, perhaps with a point behind them and more digits, and perhaps with an exponent. -/
def isNumeral (cs : List Char) : Bool :=
  !(cs.takeWhile Char.isDigit).isEmpty &&
    match cs.dropWhile Char.isDigit with
    | '.' :: rest => isExponent (rest.dropWhile Char.isDigit)
    | rest => isExponent rest

/-- The longest symbol that goes on from a given one. -/
def symbolSpan (s : List Char) : List Char → List Char × List Char
  | [] => (s, [])
  | c :: cs => if symbols.contains (s ++ [c]) then symbolSpan (s ++ [c]) cs else (s, c :: cs)

/-- The beginnings that are no symbols: of a comment, of a long literal, and of a numeral without its zero. -/
def isOtherStart : List Char → Bool
  | c :: d :: _ => c == '-' && d == '-' || c == '[' && (d == '[' || d == '=') || c == '.' && d.isDigit
  | _ => false

def readNumeral? (cs : List Char) : Option (Token × List Char) :=
  let (n, rest) := numeralSpan cs
  if isNumeral n then some (.numeral (String.ofList n), rest) else none

def readSymbol? (c : Char) (cs : List Char) : Option (Token × List Char) :=
  let (s, rest) := symbolSpan [c] cs
  if symbols.contains s && !isOtherStart (c :: cs) then some (.symbol (String.ofList s), rest) else none

/-- The token that a text starts with, and what follows it. -/
def readToken? : List Char → Option (Token × List Char)
  | [] => none
  | c :: cs =>
      if c.isDigit then readNumeral? (c :: cs)
      else if isIdentifierChar c then
        some (.word (String.ofList (c :: cs.takeWhile isIdentifierChar)), cs.dropWhile isIdentifierChar)
      else if c == '"' then (readLiteral? (c :: cs)).map fun (s, rest) => (.literal s, rest)
      else readSymbol? c cs

/-! ### What a token takes -/

theorem numeralSpan_length_le (cs : List Char) : (numeralSpan cs).2.length ≤ cs.length := by
  fun_induction numeralSpan cs <;> simp_all <;> omega

theorem symbolSpan_length_le (s cs : List Char) : (symbolSpan s cs).2.length ≤ cs.length := by
  fun_induction symbolSpan s cs <;> simp_all
  omega

theorem literalBody?_length {cs said rest : List Char} (h : literalBody? cs = some (said, rest)) :
    rest.length < cs.length := by
  fun_induction literalBody? cs generalizing said rest with
  | case1 => cases h
  | case2 rest' =>
    cases h
    exact Nat.lt_succ_self _
  | case3 c cs ih =>
    obtain ⟨d, -, h⟩ := Option.bind_eq_some_iff.mp h
    obtain ⟨⟨said', rest'⟩, hbody, h⟩ := Option.bind_eq_some_iff.mp h
    cases h
    have := ih hbody
    simp only [List.length_cons]
    omega
  | case4 => cases h
  | case5 c cs _ _ _ ih =>
    obtain ⟨⟨said', rest'⟩, hbody, h⟩ := Option.map_eq_some_iff.mp h
    cases h
    have := ih hbody
    simp only [List.length_cons]
    omega

theorem readLiteral?_length {cs rest : List Char} {s : String} (h : readLiteral? cs = some (s, rest)) :
    rest.length < cs.length := by
  unfold readLiteral? at h
  split at h
  · obtain ⟨⟨said, rest'⟩, hbody, h⟩ := Option.map_eq_some_iff.mp h
    cases h
    have := literalBody?_length hbody
    simp only [List.length_cons]
    omega
  · cases h

theorem isNumeralChar_of_isDigit {c : Char} (hc : c.isDigit = true) : isNumeralChar c = true := by
  simp [isNumeralChar, isIdentifierChar, Char.isAlphanum, hc]

theorem numeralSpan_cons_length {c : Char} (hc : isNumeralChar c = true) (cs : List Char) :
    (numeralSpan (c :: cs)).2.length ≤ cs.length := by
  cases cs with
  | nil => simp [numeralSpan, hc]
  | cons sign cs =>
    rw [numeralSpan]
    split
    · have := numeralSpan_length_le cs
      simp only [List.length_cons]
      omega
    · exact numeralSpan_length_le _

theorem readToken?_length {cs rest : List Char} {t : Token} (h : readToken? cs = some (t, rest)) :
    rest.length < cs.length := by
  unfold readToken? at h
  split at h
  · cases h
  · next c cs =>
    split_ifs at h with hdigit hname hquote
    · have := numeralSpan_cons_length (isNumeralChar_of_isDigit hdigit) cs
      simp only [readNumeral?] at h
      split at h
      · cases h
        exact Nat.lt_succ_of_le this
      · cases h
    · cases h
      exact Nat.lt_succ_of_le (List.dropWhile_sublist _).length_le
    · obtain ⟨⟨s, rest'⟩, hread, h⟩ := Option.map_eq_some_iff.mp h
      cases h
      exact readLiteral?_length hread
    · have := symbolSpan_length_le [c] cs
      simp only [readSymbol?] at h
      split at h
      · cases h
        exact Nat.lt_succ_of_le this
      · cases h

/-! ### All tokens -/

theorem fromToken_length_le (cs : List Char) : (fromToken cs).length ≤ cs.length := by
  fun_induction fromToken cs with
  | case1 => exact Nat.le_refl _
  | case2 c cs rest h ih =>
    have := afterComment?_length h
    omega
  | case3 c cs h hblank ih =>
    rw [List.length_cons]
    omega
  | case4 c cs h hblank => exact Nat.le_refl _

/-- The tokens of a text, if it has nothing else in it than tokens, blanks and comments. -/
def tokens? (cs : List Char) : Option (List Token) :=
  if fromToken cs = [] then some []
  else
    match _h : readToken? (fromToken cs) with
    | some (t, rest) => (tokens? rest).map (t :: ·)
    | none => none
termination_by cs.length
decreasing_by exact Nat.lt_of_lt_of_le (readToken?_length _h) (fromToken_length_le cs)

theorem tokens?_nil : tokens? [] = some [] := by
  rw [tokens?, fromToken, if_pos rfl]

theorem tokens?_congr {cs cs' : List Char} (h : fromToken cs = fromToken cs') : tokens? cs = tokens? cs' := by
  rw [tokens?, tokens?, h]

theorem tokens?_skipped {t : List Char} (h : Skipped t) (rest : List Char) :
    tokens? (t ++ rest) = tokens? rest := tokens?_congr (h rest)

theorem tokens?_of_readToken? {cs rest : List Char} {t : Token} (hself : fromToken cs = cs)
    (h : readToken? cs = some (t, rest)) : tokens? cs = (tokens? rest).map (t :: ·) := by
  have nonempty : cs ≠ [] := by
    rintro rfl
    cases h
  rw [tokens?, hself, if_neg nonempty]
  split
  · next heq =>
    cases heq.symm.trans h
    rfl
  · next heq => cases heq.symm.trans h

end Lua
end GameScript
