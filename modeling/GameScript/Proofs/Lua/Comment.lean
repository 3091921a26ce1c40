import GameScript.Proofs.Lua.Token
import Mathlib.Data.List.Infix

/-! Comments as a reader of the output finds them. A comment is long or goes to the end of its line, and a long
one ends with the first closing bracket of its level, so a text that is put into a comment ends it early just
when the closing bracket, or the end of a line, stands in the text. -/

namespace GameScript
namespace Lua

/-! ### The reader -/

/-- A line feed, or a carriage return, which ends a line as well. -/
def isLineBreak (c : Char) : Bool := c == '\n' || c == '\r'

def isBlank (c : Char) : Bool := isLineBreak c || c == ' ' || c == '\t' || c == '\x0b' || c == '\x0c'

/-- What follows the first occurrence of a pattern. -/
def afterFirst (pattern : List Char) : List Char → Option (List Char)
  | [] => none
  | c :: cs =>
      if pattern.isPrefixOf (c :: cs) then some ((c :: cs).drop pattern.length)
      else afterFirst pattern cs

/-- The level of the long bracket that a text starts with, and what follows the bracket. -/
def openBracket? : List Char → Option (Nat × List Char)
  | '[' :: cs =>
      match cs.dropWhile (· == '=') with
      | '[' :: rest => some ((cs.takeWhile (· == '=')).length, rest)
      | _ => none
  | _ => none

def closeBracket (level : Nat) : List Char := ']' :: (List.replicate level '=' ++ [']'])

/-- What follows the comment that a text starts with, if there is one and it ends. The end of its line is not a
part of a comment. -/
def afterComment? : List Char → Option (List Char)
  | '-' :: '-' :: cs =>
      match openBracket? cs with
      | some (level, body) => afterFirst (closeBracket level) body
      | none => some (cs.dropWhile fun c => !isLineBreak c)
  | _ => none

/-- The text is one comment, whatever follows it. -/
def IsComment (t : List Char) : Prop := ∀ rest, afterComment? (t ++ rest) = some rest

/-- The text is one comment that takes up the rest of its line. -/
def IsLineComment (t : List Char) : Prop := ∀ rest, afterComment? (t ++ '\n' :: rest) = some ('\n' :: rest)

theorem afterFirst_length {pattern : List Char} (hp : pattern ≠ []) : {cs rest : List Char} →
    afterFirst pattern cs = some rest → rest.length < cs.length
  | c :: cs, rest, h => by
    rw [afterFirst] at h
    have := List.length_pos_of_ne_nil hp
    split_ifs at h
    · cases h
      rw [List.length_drop, List.length_cons]
      omega
    · have := afterFirst_length hp h
      rw [List.length_cons]
      omega

theorem openBracket?_length {cs body : List Char} {level : Nat} (h : openBracket? cs = some (level, body)) :
    body.length < cs.length := by
  unfold openBracket? at h
  split at h
  · next cs =>
    split at h
    · next rest hrest =>
      cases h
      have := (List.dropWhile_sublist (l := cs) (· == '=')).length_le
      rw [hrest, List.length_cons] at this
      rw [List.length_cons]
      omega
    · cases h
  · cases h

theorem afterComment?_length {cs rest : List Char} (h : afterComment? cs = some rest) :
    rest.length < cs.length := by
  unfold afterComment? at h
  split at h
  · next cs =>
    rw [List.length_cons, List.length_cons]
    split at h
    · next level body hopen =>
      have := openBracket?_length hopen
      have := afterFirst_length (List.cons_ne_nil _ _) h
      omega
    · cases h
      have := (List.dropWhile_sublist (l := cs) fun c => !isLineBreak c).length_le
      omega
  · cases h

/-- A text from its first token on, without the blanks and the comments in front of it. -/
def fromToken : List Char → List Char
  | [] => []
  | c :: cs =>
      match _h : afterComment? (c :: cs) with
      | some rest => fromToken rest
      | none => if isBlank c then fromToken cs else c :: cs
termination_by cs => cs.length
decreasing_by
  · exact afterComment?_length _h
  · exact Nat.lt_succ_self _

theorem fromToken_comment {cs rest : List Char} (h : afterComment? cs = some rest) :
    fromToken cs = fromToken rest := by
  cases cs with
  | nil => cases h
  | cons c cs =>
    rw [fromToken]
    split
    · next rest' h' => rw [Option.some.inj (h'.symm.trans h)]
    · next h' => cases h'.symm.trans h

theorem fromToken_of_no_comment {c : Char} {cs : List Char} (h : afterComment? (c :: cs) = none) :
    fromToken (c :: cs) = if isBlank c then fromToken cs else c :: cs := by
  rw [fromToken]
  split
  · next h' => cases h'.symm.trans h
  · rfl

theorem afterComment?_of_head {c : Char} (hc : c ≠ '-') (cs : List Char) :
    afterComment? (c :: cs) = none := by
  unfold afterComment?
  split
  · next heq => exact absurd (List.cons.inj heq).1 hc
  · rfl

theorem fromToken_blank {c : Char} (hc : isBlank c = true) (cs : List Char) :
    fromToken (c :: cs) = fromToken cs := by
  have dash : c ≠ '-' := by
    rintro rfl
    cases hc
  rw [fromToken_of_no_comment (afterComment?_of_head dash cs), if_pos hc]

theorem fromToken_self {c : Char} {cs : List Char} (hc : isBlank c = false)
    (h : afterComment? (c :: cs) = none) : fromToken (c :: cs) = c :: cs := by
  rw [fromToken_of_no_comment h, if_neg (by rw [hc]; exact Bool.false_ne_true)]

/-- A text that a reader passes over on the way to the next token. -/
def Skipped (t : List Char) : Prop := ∀ rest, fromToken (t ++ rest) = fromToken rest

theorem Skipped.append {t u : List Char} (ht : Skipped t) (hu : Skipped u) : Skipped (t ++ u) := by
  intro rest
  rw [List.append_assoc, ht, hu]

theorem isLineBreak_of_any {cs : List Char} (h : cs.any isLineBreak = false) :
    ∀ c ∈ cs, isLineBreak c = false := fun c hc =>
  Bool.eq_false_iff.mpr (List.any_eq_false.mp h c hc)

theorem skipped_of_blank : (blanks : List Char) → (∀ c ∈ blanks, isBlank c = true) → Skipped blanks
  | [], _, _ => rfl
  | c :: blanks, h, rest => by
    obtain ⟨hc, h⟩ := List.forall_mem_cons.mp h
    rw [List.cons_append, fromToken_blank hc, skipped_of_blank blanks h]

theorem IsComment.skipped {t : List Char} (h : IsComment t) : Skipped t := fun rest =>
  fromToken_comment (h rest)

theorem IsLineComment.skipped {t : List Char} (h : IsLineComment t) : Skipped (t ++ ['\n']) := by
  intro rest
  have text : t ++ ['\n'] ++ rest = t ++ '\n' :: rest := by simp
  rw [text, fromToken_comment (h rest), fromToken_blank rfl]

/-! ### Texts in a comment -/

/-- A text up to a closing bracket, with something else in front of the bracket, has it there for the first time
just when it has none before. -/
theorem afterFirst_closer_iff {c : Char} (hc : c ≠ ']') (rest : List Char) : (cs : List Char) →
    (afterFirst [']', ']'] (cs ++ c :: ']' :: ']' :: rest) = some rest ↔ ¬ [']', ']'] <:+: cs)
  | [] => by
    have here : ([']', ']'].isPrefixOf (c :: ']' :: ']' :: rest)) = false := by
      simp [List.isPrefixOf, Ne.symm hc]
    have next : ([']', ']'].isPrefixOf (']' :: ']' :: rest)) = true := by simp [List.isPrefixOf]
    rw [List.nil_append, afterFirst, if_neg (by simp [here]), afterFirst, if_pos next]
    simp
  | d :: cs => by
    rw [List.cons_append, afterFirst, List.infix_cons_iff]
    by_cases closes : [']', ']'] <+: d :: cs
    · -- what follows this bracket is longer than what follows the last one
      have here : [']', ']'] <+: d :: (cs ++ c :: ']' :: ']' :: rest) :=
        closes.trans (List.prefix_append (d :: cs) _)
      rw [if_pos (List.isPrefixOf_iff_prefix.mpr here)]
      obtain ⟨cs', hcs⟩ := closes
      obtain ⟨rfl, rfl⟩ : ']' = d ∧ ']' :: cs' = cs := List.cons.inj hcs
      refine iff_of_false (fun h => ?_) (not_not.mpr (.inl ⟨cs', hcs⟩))
      have := congrArg List.length (Option.some.inj h)
      simp at this
      omega
    · have here : ¬ [']', ']'] <+: d :: (cs ++ c :: ']' :: ']' :: rest) := by
        intro h
        apply closes
        cases cs with
        | nil =>
          obtain ⟨-, h⟩ := List.cons_prefix_cons.mp h
          exact absurd (List.cons_prefix_cons.mp h).1.symm hc
        | cons e cs =>
          rw [List.cons_append] at h
          obtain ⟨rfl, tail⟩ := List.cons_prefix_cons.mp h
          obtain ⟨rfl, -⟩ := List.cons_prefix_cons.mp tail
          exact ⟨cs, rfl⟩
      rw [if_neg (mt List.isPrefixOf_iff_prefix.mp here), afterFirst_closer_iff hc rest cs, not_or]
      exact (and_iff_right closes).symm

/-- Characters in front that are not of the pattern matter nothing. -/
theorem afterFirst_append {p : Char} {ps front : List Char} (h : p ∉ front) (cs : List Char) :
    afterFirst (p :: ps) (front ++ cs) = afterFirst (p :: ps) cs := by
  induction front with
  | nil => rfl
  | cons c front ih =>
    obtain ⟨hc, h⟩ := not_or.mp (mt List.mem_cons.mpr h)
    rw [List.cons_append, afterFirst, if_neg, ih h]
    intro hprefix
    exact hc (List.cons_prefix_cons.mp (List.isPrefixOf_iff_prefix.mp hprefix)).1

theorem infix_append_iff {p : Char} {ps front : List Char} (h : p ∉ front) (cs : List Char) :
    p :: ps <:+: front ++ cs ↔ p :: ps <:+: cs := by
  induction front with
  | nil => rfl
  | cons c front ih =>
    obtain ⟨hc, h⟩ := not_or.mp (mt List.mem_cons.mpr h)
    rw [List.cons_append, List.infix_cons_iff, ih h, or_iff_right]
    exact fun hprefix => hc (List.cons_prefix_cons.mp hprefix).1

/-- A long comment of the lowest level goes as far as it is written just when the text in it does not close
it. -/
theorem isComment_iff {c : Char} (hc : c ≠ ']') (cs : List Char) :
    IsComment ('-' :: '-' :: '[' :: '[' :: (cs ++ [c, ']', ']'])) ↔ ¬ [']', ']'] <:+: cs := by
  have reads : ∀ rest, afterComment? ('-' :: '-' :: '[' :: '[' :: (cs ++ [c, ']', ']']) ++ rest) =
      afterFirst [']', ']'] (cs ++ c :: ']' :: ']' :: rest) := by
    intro rest
    have text : '-' :: '-' :: '[' :: '[' :: (cs ++ [c, ']', ']']) ++ rest =
        '-' :: '-' :: '[' :: '[' :: (cs ++ c :: ']' :: ']' :: rest) := by simp
    rw [text]
    rfl
  constructor
  · intro h
    exact (afterFirst_closer_iff hc [] cs).mp ((reads []).symm.trans (h []))
  · intro h rest
    rw [reads, (afterFirst_closer_iff hc rest cs).mpr h]

theorem dropWhile_line_iff (rest : List Char) : (cs : List Char) →
    ((cs ++ '\n' :: rest).dropWhile (fun c => !isLineBreak c) = '\n' :: rest ↔
      ∀ c ∈ cs, isLineBreak c = false)
  | [] => by simp [isLineBreak]
  | c :: cs => by
    rw [List.cons_append, List.dropWhile_cons, List.forall_mem_cons]
    cases hc : isLineBreak c with
    | false =>
      rw [if_pos (by rfl), dropWhile_line_iff rest cs]
      exact (and_iff_right rfl).symm
    | true =>
      refine iff_of_false (fun h => ?_) fun h => nomatch h.1
      rw [if_neg (by simp)] at h
      have := congrArg List.length (List.cons.inj h).2
      simp at this
      omega

/-- A comment that is not long takes up the rest of its line just when it is on one line. -/
theorem isLineComment_iff {c : Char} (hc : c ≠ '[') (cs : List Char) :
    IsLineComment ('-' :: '-' :: c :: cs) ↔ ∀ d ∈ c :: cs, isLineBreak d = false := by
  have reads : ∀ rest, afterComment? ('-' :: '-' :: c :: cs ++ '\n' :: rest) =
      some ((c :: cs ++ '\n' :: rest).dropWhile fun c => !isLineBreak c) := by
    intro rest
    have short : openBracket? (c :: cs ++ '\n' :: rest) = none := by
      unfold openBracket?
      split
      · next heq => exact absurd (List.cons.inj heq).1 hc
      · rfl
    show afterComment? ('-' :: '-' :: (c :: cs ++ '\n' :: rest)) = _
    rw [afterComment?, short]
  constructor
  · intro h
    exact (dropWhile_line_iff [] (c :: cs)).mp (Option.some.inj ((reads []).symm.trans (h [])))
  · intro h rest
    rw [reads, (dropWhile_line_iff rest (c :: cs)).mpr h]

/-! ### Inline comments -/

theorem closer_prefix_splitClosers (cs : List Char) :
    [']'] <+: splitClosers cs ↔ [']'] <+: cs := by
  fun_cases splitClosers cs with
  | case1 cs => simp
  | case2 c cs => simp
  | case3 => rfl

/-- Put into every pair of closing brackets from the left, a blank leaves a pair just where there are three in a
row. -/
theorem infix_splitClosers (cs : List Char) :
    [']', ']'] <:+: splitClosers cs ↔ [']', ']', ']'] <:+: cs := by
  fun_induction splitClosers cs with
  | case1 cs ih =>
    have head := closer_prefix_splitClosers cs
    have pair : [']', ']'] <+: cs → [']'] <+: cs := (List.prefix_append [']'] [']']).trans
    simp only [List.infix_cons_iff, List.cons_prefix_cons, ih, head]
    grind
  | case2 c cs h ih =>
    have head := closer_prefix_splitClosers cs
    have pair : [']', ']'] <+: cs → [']'] <+: cs := (List.prefix_append [']'] [']']).trans
    have lone : ¬ (']' = c ∧ [']'] <+: cs) := by
      rintro ⟨rfl, cs', rfl⟩
      exact h cs' rfl rfl
    simp only [List.infix_cons_iff, List.cons_prefix_cons, ih, head]
    grind
  | case3 => simp

theorem newline_not_mem_oneLine (t : String) : '\n' ∉ (oneLine t).toList := by
  rw [oneLine, String.toList_map, List.mem_map]
  rintro ⟨c, -, hc⟩
  split_ifs at hc with h
  · cases hc
  · exact h hc

/-- Put on one line, a text keeps all that is neither a line feed nor a blank. -/
theorem mem_oneLine_iff {c : Char} (hline : c ≠ '\n') (hblank : c ≠ ' ') (t : String) :
    c ∈ (oneLine t).toList ↔ c ∈ t.toList := by
  rw [oneLine, String.toList_map, List.mem_map]
  constructor
  · rintro ⟨d, hd, rfl⟩
    split_ifs at hblank ⊢ with h
    · exact absurd rfl hblank
    · exact hd
  · exact fun h => ⟨c, h, if_neg hline⟩

/-- A list in which no other value is turned into one of the pattern has the pattern where it was. -/
theorem prefix_map_iff {f : Char → Char} {p : List Char} (hf : ∀ c ∈ p, ∀ d, c = f d ↔ c = d)
    (cs : List Char) : p <+: cs.map f ↔ p <+: cs := by
  induction p generalizing cs with
  | nil => simp
  | cons c p ih =>
    obtain ⟨hc, hf⟩ := List.forall_mem_cons.mp hf
    cases cs with
    | nil => simp
    | cons d cs => rw [List.map_cons, List.cons_prefix_cons, List.cons_prefix_cons, hc, ih hf]

theorem infix_map_iff {f : Char → Char} {p : List Char} (hf : ∀ c ∈ p, ∀ d, c = f d ↔ c = d)
    (cs : List Char) : p <:+: cs.map f ↔ p <:+: cs := by
  induction cs with
  | nil => rfl
  | cons d cs ih =>
    rw [List.map_cons, List.infix_cons_iff, List.infix_cons_iff, ih, ← List.map_cons, prefix_map_iff hf]

theorem closer_infix_oneLine (t : String) :
    [']', ']'] <:+: (oneLine t).toList ↔ [']', ']'] <:+: t.toList := by
  rw [oneLine, String.toList_map]
  refine infix_map_iff (fun c hc d => ?_) _
  obtain rfl : c = ']' := by simpa using hc
  split_ifs with h
  · subst h
    decide
  · rfl

theorem toList_inlineComment (text : String) : (inlineComment text).toList =
    '-' :: '-' :: '[' :: '[' ::
      ('(' :: (oneLine (String.ofList (splitClosers text.toList))).toList ++ [')', ']', ']']) := by
  simp [inlineComment]

theorem inline_text_iff (text : String) :
    [']', ']'] <:+: '(' :: (oneLine (String.ofList (splitClosers text.toList))).toList ↔
      [']', ']', ']'] <:+: text.toList := by
  rw [← List.singleton_append (x := '('), infix_append_iff (by simp), closer_infix_oneLine,
    String.toList_ofList, infix_splitClosers]

/-- An inline comment goes as far as it is written just when its text has no three closing brackets in a row. -/
theorem isComment_inlineComment_iff (text : String) :
    IsComment (inlineComment text).toList ↔ ¬ [']', ']', ']'] <:+: text.toList := by
  rw [toList_inlineComment, isComment_iff (by decide), inline_text_iff]

theorem afterFirst_inlineComment_iff (text : String) :
    afterFirst [']', ']'] (inlineComment text).toList = some [] ↔ ¬ [']', ']', ']'] <:+: text.toList := by
  have front : ∀ cs : List Char, '-' :: '-' :: '[' :: '[' :: cs = ['-', '-', '[', '['] ++ cs := fun _ => rfl
  rw [toList_inlineComment, front, afterFirst_append (by simp), afterFirst_closer_iff (by decide),
    inline_text_iff]

theorem newline_not_mem_inlineComment (text : String) : '\n' ∉ (inlineComment text).toList := by
  rw [toList_inlineComment]
  simp [newline_not_mem_oneLine]

end Lua
end GameScript
