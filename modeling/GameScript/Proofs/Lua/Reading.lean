import GameScript.Proofs.Lua.Lexer

/-! How the tokens of a text are found from its parts. A token that is spelled out is read back, unless what follows
would go on with it; so a text that ends with a closed token or a blank may stand in front of every text, and others
only in front of some. -/

namespace GameScript
namespace Lua

/-! ### Tokens that are read back -/

/-- The token is one that the reader gives for its spelling. -/
def Token.sound : Token → Bool
  | word w =>
      match w.toList with
      | [] => false
      | c :: cs => !c.isDigit && (c :: cs).all isIdentifierChar
  | numeral n => isNumeral n.toList && numeralSpan (n.toList ++ ['+']) == (n.toList, ['+'])
  | literal s => !s.toList.contains '\r'
  | symbol s =>
      match s.toList with
      | [] => false
      | c :: cs => symbols.contains (c :: cs) && symbolSpan [c] cs == (c :: cs, []) && !isOtherStart (c :: cs)

/-- A next character does not go on with the token. -/
def Token.fits (next : Option Char) : Token → Bool
  | word _ => next.all fun c => !isIdentifierChar c
  | numeral _ => next.all fun c => !isNumeralChar c
  | literal _ => true
  | symbol s => next.all fun c => !symbols.contains (s.toList ++ [c]) && !isOtherStart (s.toList ++ [c])

theorem isNumeralChar_of_mark {c : Char} (h : (c == 'e' || c == 'E') = true) : isNumeralChar c = true := by
  rcases Bool.or_eq_true_iff.mp h with h | h <;> rw [eq_of_beq h] <;> decide

theorem numeralSpan_of_fits {rest : List Char} (h : ∀ c ∈ rest.head?, isNumeralChar c = false) :
    numeralSpan rest = ([], rest) := by
  match rest with
  | [] => rfl
  | [c] => rw [numeralSpan, h c rfl, if_neg Bool.false_ne_true]
  | c :: sign :: cs =>
    have mark : (c == 'e' || c == 'E') = false := Bool.eq_false_iff.mpr fun hmark =>
      absurd (isNumeralChar_of_mark hmark) (by rw [h c rfl]; exact Bool.false_ne_true)
    rw [numeralSpan, mark, Bool.false_and, if_neg Bool.false_ne_true, h c rfl, if_neg Bool.false_ne_true]

/-- A character of a numeral that announces no exponent is taken alone. -/
theorem numeralSpan_cons {c : Char} (hc : isNumeralChar c = true) (hmark : (c == 'e' || c == 'E') = false)
    (cs : List Char) : numeralSpan (c :: cs) = (c :: (numeralSpan cs).1, (numeralSpan cs).2) := by
  cases cs with
  | nil => simp [numeralSpan, hc]
  | cons sign cs => rw [numeralSpan, hmark, Bool.false_and, if_neg Bool.false_ne_true, if_pos hc]

theorem numeralSpan_append {rest : List Char} (h : ∀ c ∈ rest.head?, isNumeralChar c = false) :
    (n : List Char) → numeralSpan (n ++ ['+']) = (n, ['+']) → numeralSpan (n ++ rest) = (n, rest)
  | [], _ => numeralSpan_of_fits h
  | [c], hn => by
    rw [List.singleton_append, numeralSpan] at hn
    split_ifs at hn with hsigned hc
    · cases hn
    · have hmark : (c == 'e' || c == 'E') = false := by simpa using hsigned
      rw [List.singleton_append, numeralSpan_cons hc hmark, numeralSpan_of_fits h]
    · cases hn
  | c :: sign :: cs, hn => by
    rw [List.cons_append, List.cons_append, numeralSpan] at hn ⊢
    split_ifs at hn ⊢ with hsigned hc
    · obtain ⟨h1, h2⟩ := Prod.mk.inj hn
      have inner := numeralSpan_append h cs (Prod.ext (List.cons.inj (List.cons.inj h1).2).2 h2)
      rw [inner]
    · obtain ⟨h1, h2⟩ := Prod.mk.inj hn
      have inner := numeralSpan_append h (sign :: cs) (Prod.ext (List.cons.inj h1).2 h2)
      rw [List.cons_append] at inner
      rw [inner]
    · cases hn

theorem symbolSpan_append {rest : List Char} : {s cs all : List Char} → symbolSpan s cs = (all, []) →
    (∀ c ∈ rest.head?, symbols.contains (all ++ [c]) = false) → symbolSpan s (cs ++ rest) = (all, rest)
  | s, [], all, h, hrest => by
    obtain ⟨rfl, -⟩ := Prod.mk.inj h
    cases rest with
    | nil => rfl
    | cons c rest => rw [List.nil_append, symbolSpan, hrest c rfl, if_neg Bool.false_ne_true]
  | s, c :: cs, all, h, hrest => by
    rw [symbolSpan] at h
    rw [List.cons_append, symbolSpan]
    split_ifs at h ⊢ with hmore
    · exact symbolSpan_append h hrest
    · cases h

/-- Whether a text starts like a symbol is seen from its first two characters. -/
theorem isOtherStart_append {s rest : List Char} (hs : s ≠ []) (hself : isOtherStart s = false)
    (hrest : ∀ c ∈ rest.head?, isOtherStart (s ++ [c]) = false) : isOtherStart (s ++ rest) = false := by
  match s, rest with
  | [], _ => exact absurd rfl hs
  | s, [] => rwa [List.append_nil]
  | [c], d :: rest =>
    exact hrest d rfl
  | c :: d :: s, e :: rest =>
    exact hself

theorem readSymbol?_append {c : Char} {cs rest : List Char} (hmem : symbols.contains (c :: cs) = true)
    (hspan : symbolSpan [c] cs = (c :: cs, [])) (hself : isOtherStart (c :: cs) = false)
    (hfits : ∀ d ∈ rest.head?, symbols.contains (c :: cs ++ [d]) = false ∧ isOtherStart (c :: cs ++ [d]) = false) :
    readSymbol? c (cs ++ rest) = some (.symbol (String.ofList (c :: cs)), rest) := by
  have start := isOtherStart_append (List.cons_ne_nil c cs) hself fun d hd => (hfits d hd).2
  rw [List.cons_append] at start
  simp only [readSymbol?]
  rw [symbolSpan_append hspan fun d hd => (hfits d hd).1]
  rw [hmem, start]
  rfl

theorem afterComment?_of_start {cs : List Char} (h : isOtherStart cs = false) : afterComment? cs = none := by
  unfold afterComment?
  split
  · cases h
  · rfl

theorem isBlank_of_isIdentifierChar {c : Char} (h : isIdentifierChar c = true) : isBlank c = false ∧ c ≠ '-' := by
  constructor
  · refine Bool.eq_false_iff.mpr fun hblank => ?_
    simp only [isBlank, isLineBreak, Bool.or_eq_true, beq_iff_eq] at hblank
    rcases hblank with ((((rfl | rfl) | rfl) | rfl) | rfl) | rfl <;> revert h <;> decide
  · rintro rfl
    revert h
    decide

/-- Behind blanks and comments, a text is read from its first token on. -/
theorem fromToken_of_front {c : Char} {cs : List Char} (h : isBlank c = false ∧ c ≠ '-') :
    fromToken (c :: cs) = c :: cs := fromToken_self h.1 (afterComment?_of_head h.2 cs)

theorem isIdentifierChar_of_isDigit {c : Char} (h : c.isDigit = true) : isIdentifierChar c = true := by
  simp [isIdentifierChar, Char.isAlphanum, h]

theorem readToken?_word {c : Char} {cs rest : List Char} (hdigit : c.isDigit = false)
    (hall : ∀ d ∈ c :: cs, isIdentifierChar d = true) (hfits : ∀ d ∈ rest.head?, isIdentifierChar d = false) :
    readToken? (c :: (cs ++ rest)) = some (.word (String.ofList (c :: cs)), rest) := by
  obtain ⟨hc, hcs⟩ := List.forall_mem_cons.mp hall
  have ends : rest.takeWhile isIdentifierChar = [] ∧ rest.dropWhile isIdentifierChar = rest := by
    cases rest with
    | nil => exact ⟨rfl, rfl⟩
    | cons d rest => simp [hfits d rfl]
  rw [readToken?, hdigit, if_neg Bool.false_ne_true, if_pos hc, List.takeWhile_append_of_pos hcs,
    List.dropWhile_append_of_pos hcs, ends.1, ends.2, List.append_nil]

theorem readToken?_literal {s : String} (hs : '\r' ∉ s.toList) (rest : List Char) :
    readToken? ((quote s).toList ++ rest) = some (.literal s, rest) := by
  have body : readLiteral? ((quote s).toList ++ rest) = some (s, rest) := by
    rw [toList_quote, List.cons_append, List.append_assoc, List.singleton_append, readLiteral?,
      literalBody?_flatMap_escapeChar, if_neg hs]
    simp
  rw [toList_quote, List.cons_append] at body ⊢
  rw [readToken?, if_neg (by decide), if_neg (by decide), if_pos (by decide), body, Option.map_some]

theorem symbol_front {c : Char} {cs : List Char} (h : symbols.contains (c :: cs) = true) : isBlank c = false ∧
    c.isDigit = false ∧ isIdentifierChar c = false ∧ (c == '"') = false := by
  have each : ∀ s ∈ symbols, (s.head?.all fun c =>
      !isBlank c && !c.isDigit && !isIdentifierChar c && !(c == '"')) = true := by decide
  simpa [and_assoc] using each _ (List.contains_iff_mem.mp h)

/-- A sound token is read back in front of what does not go on with it. -/
theorem tokens?_spelled {t : Token} (ht : t.sound = true) {rest : List Char} (hfits : t.fits rest.head? = true) :
    tokens? (t.spelled ++ rest) = (tokens? rest).map (t :: ·) := by
  cases t with
  | word w =>
    obtain ⟨l, rfl⟩ : ∃ l, w = String.ofList l := ⟨w.toList, String.ofList_toList.symm⟩
    rw [Token.sound, String.toList_ofList] at ht
    rw [Token.spelled, String.toList_ofList]
    cases l with
    | nil => cases ht
    | cons c cs =>
      simp only [Bool.and_eq_true, Bool.not_eq_true', List.all_eq_true] at ht
      have fits : ∀ d ∈ rest.head?, isIdentifierChar d = false := by
        intro d hd
        rw [Token.fits, hd] at hfits
        simpa using hfits
      have front := isBlank_of_isIdentifierChar (ht.2 c List.mem_cons_self)
      exact tokens?_of_readToken? (fromToken_of_front front) (readToken?_word ht.1 ht.2 fits)
  | numeral n =>
    obtain ⟨l, rfl⟩ : ∃ l, n = String.ofList l := ⟨n.toList, String.ofList_toList.symm⟩
    rw [Token.sound, String.toList_ofList] at ht
    rw [Token.spelled, String.toList_ofList]
    obtain ⟨hnumeral, hspan⟩ := Bool.and_eq_true_iff.mp ht
    have fits : ∀ d ∈ rest.head?, isNumeralChar d = false := by
      intro d hd
      rw [Token.fits, hd] at hfits
      simpa using hfits
    have span := numeralSpan_append fits _ (eq_of_beq hspan)
    cases l with
    | nil => cases hnumeral
    | cons c cs =>
      have digit : c.isDigit = true := by
        by_contra hc
        simp [isNumeral, hc] at hnumeral
      have front := isBlank_of_isIdentifierChar (isIdentifierChar_of_isDigit digit)
      refine tokens?_of_readToken? (fromToken_of_front front) ?_
      rw [List.cons_append] at span ⊢
      rw [readToken?, if_pos digit, readNumeral?, span]
      exact if_pos hnumeral
  | literal s =>
    have hs : '\r' ∉ s.toList := by simpa [Token.sound] using ht
    refine tokens?_of_readToken? ?_ (readToken?_literal hs rest)
    rw [Token.spelled, toList_quote]
    exact fromToken_of_front (by decide)
  | symbol s =>
    obtain ⟨l, rfl⟩ : ∃ l, s = String.ofList l := ⟨s.toList, String.ofList_toList.symm⟩
    rw [Token.sound, String.toList_ofList] at ht
    rw [Token.spelled, String.toList_ofList]
    cases l with
    | nil => cases ht
    | cons c cs =>
      simp only [Bool.and_eq_true, beq_iff_eq, Bool.not_eq_true'] at ht
      obtain ⟨⟨hmem, hspan⟩, hself⟩ := ht
      have fits : ∀ d ∈ rest.head?, symbols.contains (c :: cs ++ [d]) = false ∧
          isOtherStart (c :: cs ++ [d]) = false := by
        intro d hd
        rw [Token.fits, hd, String.toList_ofList] at hfits
        simpa only [Option.all_some, Bool.and_eq_true, Bool.not_eq_true'] using hfits
      obtain ⟨hblank, hdigit, hname, hquote⟩ := symbol_front hmem
      have start := isOtherStart_append (List.cons_ne_nil c cs) hself fun d hd => (fits d hd).2
      refine tokens?_of_readToken? (fromToken_self hblank (afterComment?_of_start start)) ?_
      rw [List.cons_append, readToken?, hdigit, hname, hquote]
      exact readSymbol?_append hmem hspan hself fits

/-! ### What may follow a text -/

/-- Which characters may follow a text, so that it is read as it is alone. -/
inductive Follow where
  | any
  /-- A blank, a closing bracket, a comma, or nothing more: what may follow an operand. -/
  | stop
  /-- The end of the line. -/
  | line
  /-- What does not make a long literal of an opening bracket. -/
  | bracket
  /-- What does not go on with a name. -/
  | word
  /-- The beginning of a name. -/
  | name
  | digit
deriving DecidableEq

namespace Follow

def stops : List (Option Char) := [none, some ' ', some '\n', some ')', some ']', some ',']

def admits : Follow → Option Char → Bool
  | any, _ => true
  | stop, next => stops.contains next
  | line, next => next == some '\n'
  | bracket, next => next != some '[' && next != some '='
  | word, next => next.all fun c => !isIdentifierChar c
  | name, next => next.any fun c => isIdentifierChar c && !c.isDigit
  | digit, next => next.any Char.isDigit

/-- The symbols that no other one starts with, apart from the beginnings of comments and literals. -/
def closed : List String := ["(", ")", "]", "\x7b", "\x7d", ",", ";"]

/-- A token may end a text that is followed so. -/
def accepts : Follow → Token → Bool
  | any, .symbol s => closed.contains s
  | any, .literal _ => true
  | any, _ => false
  | stop, t => stops.all fun next => t.fits next
  | line, t => t.fits (some '\n')
  | bracket, t => t == .symbol "["
  | word, .word _ => true
  | word, _ => false
  | name, t => t == .symbol "."
  | digit, t => t == .symbol "-"

theorem fits_of_closed {s : String} (hs : s ∈ closed) (next : Option Char) : (Token.symbol s).fits next = true := by
  have alone : ∀ s ∈ closed, ∀ t ∈ symbols, s.toList <+: t → t = s.toList := by decide +kernel
  have plain : ∀ s ∈ closed, ['-', '[', '.'].contains (s.toList.headD '.') = false := by decide +kernel
  have single : ∀ s ∈ closed, s.toList = [s.toList.headD '.'] := by decide +kernel
  cases next with
  | none => rfl
  | some c =>
    have longer : s.toList ++ [c] ∉ symbols := fun h => by
      have := alone s hs _ h (List.prefix_append _ _)
      simp at this
    have start : isOtherStart (s.toList ++ [c]) = false := by
      have front := plain s hs
      rw [single s hs]
      generalize s.toList.headD '.' = d at front
      simp only [List.contains_cons, List.contains_nil, Bool.or_false, Bool.or_eq_false_iff,
        beq_eq_false_iff_ne] at front
      simp [isOtherStart, front]
    simp [Token.fits, longer, start]

theorem fits {F : Follow} {t : Token} (ht : F.accepts t = true) {next : Option Char}
    (hnext : F.admits next = true) : t.fits next = true := by
  cases F with
  | any =>
    cases t with
    | symbol s => exact fits_of_closed (List.contains_iff_mem.mp ht) next
    | literal s => rfl
    | word w => cases ht
    | numeral n => cases ht
  | stop => exact List.all_eq_true.mp ht next (List.contains_iff_mem.mp hnext)
  | line => rwa [eq_of_beq hnext]
  | bracket =>
    rw [eq_of_beq ht]
    cases next with
    | none => rfl
    | some c =>
      simp only [admits, Bool.and_eq_true, bne_iff_ne, ne_eq, Option.some.injEq] at hnext
      have single : ∀ c : Char, ['[', c] ∉ symbols := fun c => by simp [symbols]
      have opener : "[".toList = ['['] := by decide
      simp [Token.fits, opener, single, isOtherStart, hnext]
  | word =>
    cases t with
    | word w => exact hnext
    | _ => cases ht
  | name =>
    rw [eq_of_beq ht]
    cases next with
    | none => cases hnext
    | some c =>
      have hc : c.isDigit = false := by simp_all [admits]
      have dot : c ≠ '.' := by
        rintro rfl
        revert hnext
        decide
      have single : ['.', c] ∉ symbols := by simp [symbols, dot]
      have text : ".".toList = ['.'] := by decide
      simp [Token.fits, text, single, isOtherStart, hc]
  | digit =>
    rw [eq_of_beq ht]
    cases next with
    | none => cases hnext
    | some c =>
      have apart : c ≠ '=' ∧ c ≠ '-' := by
        constructor <;> rintro rfl <;> revert hnext <;> decide
      have single : ['-', c] ∉ symbols := by simp [symbols, apart]
      have text : "-".toList = ['-'] := by decide
      simp [Token.fits, text, single, isOtherStart, apart]

end Follow

/-! ### Texts -/

theorem not_mem_append {c : Char} {t u : String} (ht : c ∉ t.toList) (hu : c ∉ u.toList) : c ∉ (t ++ u).toList := by
  rw [String.toList_append, List.mem_append]
  exact not_or.mpr ⟨ht, hu⟩

/-- In front of what may follow it, the text is read as these tokens. It has no carriage return, so it can be put
on one line. -/
structure Reads (F : Follow) (t : String) (ts : List Token) : Prop where
  clean : '\r' ∉ t.toList
  reads : ∀ rest, F.admits rest.head? = true → tokens? (t.toList ++ rest) = (tokens? rest).map (ts ++ ·)

namespace Reads

variable {F G : Follow} {t u : String} {ts us : List Token}

/-- The tokens of the text alone. -/
theorem tokens? (h : Reads F t ts) (hend : F.admits none = true) : Lua.tokens? t.toList = some ts := by
  have alone := h.reads [] hend
  rw [List.append_nil, tokens?_nil] at alone
  simpa using alone

/-- Fewer characters may follow. -/
theorem narrow (h : Reads F t ts) (hfollow : ∀ next, G.admits next = true → F.admits next = true) : Reads G t ts :=
  ⟨h.clean, fun rest hrest => h.reads rest (hfollow _ hrest)⟩

/-- One text behind another, where the second starts with something that may follow the first. -/
theorem followed (ht : Reads F t ts) (hu : Reads G u us)
    (hfront : ∀ rest, G.admits rest.head? = true → F.admits (u.toList ++ rest).head? = true) :
    Reads G (t ++ u) (ts ++ us) := by
  constructor
  · exact not_mem_append ht.clean hu.clean
  · intro rest hrest
    rw [String.toList_append, List.append_assoc, ht.reads _ (hfront rest hrest), hu.reads rest hrest,
      Option.map_map]
    simp only [Function.comp_def, List.append_assoc]

theorem append (ht : Reads .any t ts) (hu : Reads F u us) : Reads F (t ++ u) (ts ++ us) :=
  ht.followed hu fun _ _ => rfl

theorem skipped (hclean : '\r' ∉ t.toList) (h : Skipped t.toList) : Reads .any t [] :=
  ⟨hclean, fun rest _ => by rw [tokens?_skipped h]; simp⟩

end Reads

/-! ### Texts that are spelled out -/

/-- A token is read back in front of the rest of a text, which is followed so. -/
def Follow.leaves (F : Follow) (t : Token) : List Char → Bool
  | [] => F.accepts t
  | c :: _ => t.fits (some c)

/-- The tokens of a text, each of which is read back in front of what follows it. -/
def scan (F : Follow) : Nat → List Char → Option (List Token)
  | _, [] => some []
  | 0, _ => none
  | n + 1, c :: cs =>
      if isBlank c then scan F n cs
      else
        match readToken? (c :: cs) with
        | none => none
        | some (t, rest) =>
            if t.sound && t.spelled ++ rest == c :: cs && F.leaves t rest then (scan F n rest).map (t :: ·)
            else none

theorem tokens?_scan {F : Follow} : (n : Nat) → {cs : List Char} → {ts : List Token} → scan F n cs = some ts →
    ∀ rest, F.admits rest.head? = true → tokens? (cs ++ rest) = (tokens? rest).map (ts ++ ·)
  | _, [], ts, h, rest, _ => by
    rw [scan.eq_def] at h
    cases h
    simp
  | 0, c :: cs, ts, h, _, _ => nomatch h
  | n + 1, c :: cs, ts, h, rest, hrest => by
    rw [scan] at h
    split_ifs at h with hblank
    · rw [List.cons_append, tokens?_congr (fromToken_blank hblank _)]
      exact tokens?_scan n h rest hrest
    · split at h
      · cases h
      next t after hread =>
      split_ifs at h with hcheck
      obtain ⟨ts', hscan, rfl⟩ := Option.map_eq_some_iff.mp h
      simp only [Bool.and_eq_true, beq_iff_eq] at hcheck
      obtain ⟨⟨hsound, hspelled⟩, hfits⟩ := hcheck
      have fits : t.fits (after ++ rest).head? = true := by
        cases after with
        | nil => exact Follow.fits hfits hrest
        | cons d after => exact hfits
      rw [← hspelled, List.append_assoc, tokens?_spelled hsound fits, tokens?_scan n hscan rest hrest,
        Option.map_map]
      rfl

/-- The text is read as these tokens, as a check that can be run. -/
def isRead (F : Follow) (cs : List Char) (ts : List Token) : Bool :=
  !cs.contains '\r' && scan F cs.length cs == some ts

theorem Reads.checked {F : Follow} {t : String} {ts : List Token} (h : isRead F t.toList ts = true) :
    Reads F t ts := by
  simp only [isRead, Bool.and_eq_true, Bool.not_eq_true', List.contains_eq_mem, decide_eq_false_iff_not,
    beq_iff_eq] at h
  exact ⟨h.1, tokens?_scan _ h.2⟩

/-- A sound token is read where it is spelled. -/
theorem Reads.token {F : Follow} {t : Token} (ht : t.sound = true) (hclean : '\r' ∉ t.spelled)
    (hF : F.accepts t = true) : Reads F (String.ofList t.spelled) [t] := by
  constructor
  · rwa [String.toList_ofList]
  · intro rest hrest
    rw [String.toList_ofList, tokens?_spelled ht (Follow.fits hF hrest)]
    rfl

end Lua
end GameScript
