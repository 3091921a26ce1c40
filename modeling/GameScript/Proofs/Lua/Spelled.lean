import GameScript.Proofs.Lua.Grammar

/-! Texts of the grammar. A text is spelled out of a form when it is read as tokens of the form, whatever may follow
it; such texts are put together as the forms are, and a construct may take the place of what it may consist of. -/

namespace GameScript
namespace Lua

/-- In front of what may follow it, the text is read as tokens of the form. -/
def Spelled (ordered : Bool) (F : Follow) (t : String) (form : List Symbol) : Prop :=
  ∃ ts, Reads F t ts ∧ Derives ordered form ts

/-- The tokens of a form that consists of tokens. -/
theorem derives_shapes {ordered : Bool} : (ts : List Token) → Derives ordered (ts.map Token.shape) ts
  | [] => .nil
  | _ :: ts => .token rfl (derives_shapes ts)

/-- The text is read as tokens of the form, as a check that can be run. -/
def isSpelled (F : Follow) (cs : List Char) (form : List Symbol) : Bool :=
  !cs.contains '\r' && (scan F cs.length cs).any fun ts => isInstance form (ts.map Token.shape)

/-- The text starts with a character that may follow a text. -/
def Starts (F : Follow) (t : String) : Prop := ∃ c cs, t.toList = c :: cs ∧ F.admits (some c) = true

theorem Starts.append {F : Follow} {t : String} (h : Starts F t) (u : String) : Starts F (t ++ u) := by
  obtain ⟨c, cs, hcs, hc⟩ := h
  exact ⟨c, cs ++ u.toList, by rw [String.toList_append, hcs, List.cons_append], hc⟩

/-- One text behind another that starts with what may follow it. -/
theorem Reads.started {F G : Follow} {t u : String} {ts us : List Token} (ht : Reads F t ts) (hu : Reads G u us)
    (hfront : Starts F u) : Reads G (t ++ u) (ts ++ us) := by
  obtain ⟨c, cs, hcs, hc⟩ := hfront
  refine ht.followed hu fun rest _ => ?_
  rw [hcs]
  exact hc

/-- The text starts so, as a check that can be run. -/
def startsWith (F : Follow) (cs : List Char) : Bool := cs.head?.any fun c => F.admits (some c)

theorem Starts.checked {F : Follow} {t : String} (h : startsWith F t.toList = true) : Starts F t := by
  cases hcs : t.toList with
  | nil => rw [hcs] at h; cases h
  | cons c cs => exact ⟨c, cs, hcs, by simpa [hcs, startsWith] using h⟩

/-- The literal is given by its characters, so that the check needs not take it apart. -/
theorem Starts.fixed {F : Follow} {cs : List Char} (h : startsWith F cs = true) : Starts F (String.ofList cs) :=
  .checked (by rwa [String.toList_ofList])

namespace Spelled

variable {ordered : Bool} {F G : Follow} {t u : String} {form form' : List Symbol}

theorem checked (h : isSpelled F t.toList form = true) : Spelled ordered F t form := by
  obtain ⟨hclean, hscan⟩ := Bool.and_eq_true_iff.mp h
  obtain ⟨ts, hts, hform⟩ := (Option.any_eq_true _ _).mp hscan
  have reads : isRead F t.toList ts = true := by rw [isRead, hclean, hts, beq_self_eq_true, Bool.and_self]
  exact ⟨ts, .checked reads, (derives_shapes ts).of_isInstance hform⟩

/-- The literal is given by its characters, so that the check needs not take it apart. -/
theorem fixed {cs : List Char} (h : isSpelled F cs form = true) : Spelled ordered F (String.ofList cs) form :=
  checked (by rwa [String.toList_ofList])

theorem skipped (hclean : '\r' ∉ t.toList) (h : Skipped t.toList) : Spelled ordered .any t [] :=
  ⟨[], .skipped hclean h, .nil⟩

theorem clean (h : Spelled ordered F t form) : '\r' ∉ t.toList := h.elim fun _ hts => hts.1.clean

theorem narrow (h : Spelled ordered F t form) (hfollow : ∀ next, G.admits next = true → F.admits next = true) :
    Spelled ordered G t form := h.imp fun _ hts => ⟨hts.1.narrow hfollow, hts.2⟩

theorem weaken (h : Spelled ordered .any t form) : Spelled ordered F t form := h.narrow fun _ _ => rfl

theorem append (ht : Spelled ordered .any t form) (hu : Spelled ordered F u form') :
    Spelled ordered F (t ++ u) (form ++ form') := by
  obtain ⟨ts, ht, hform⟩ := ht
  obtain ⟨us, hu, hform'⟩ := hu
  exact ⟨ts ++ us, ht.append hu, hform.append hform'⟩

theorem followed (ht : Spelled ordered F t form) (hu : Spelled ordered G u form') (hfront : Starts F u) :
    Spelled ordered G (t ++ u) (form ++ form') := by
  obtain ⟨ts, ht, hform⟩ := ht
  obtain ⟨us, hu, hform'⟩ := hu
  exact ⟨ts ++ us, ht.started hu hfront, hform.append hform'⟩

/-- What a form is an instance of may stand for it. -/
theorem as (h : Spelled ordered F t form) (hform : isInstance form' form = true) :
    Spelled ordered F t form' := h.imp fun _ hts => ⟨hts.1, hts.2.of_isInstance hform⟩

theorem stats (h : Spelled ordered F t (.stats :: form)) (hform : isInstance [.stats] form = true) :
    Spelled ordered F t [.stats] := by
  obtain ⟨ts, ht, hts⟩ := h
  obtain ⟨us, vs, rfl, hus, hvs⟩ := Derives.cons_iff.mp hts
  exact ⟨us ++ vs, ht, hus.stats (hvs.of_isInstance hform)⟩

/-- An expression goes on with operators and operands. -/
theorem operations (more : List Symbol) (h : Spelled ordered F t (.exp :: (more ++ form)))
    (hmore : isInstance [.operations] more = true) : Spelled ordered F t (.exp :: form) := by
  obtain ⟨ts, ht, hts⟩ := h
  obtain ⟨us, vs, rfl, hus, hvs⟩ := Derives.cons_iff.mp hts
  obtain ⟨vs, ws, rfl, hvs, hws⟩ := Derives.append_iff.mp hvs
  refine ⟨_, ht, ?_⟩
  rw [← List.append_assoc]
  exact (hus.operations (hvs.of_isInstance hmore)).append hws

end Spelled

/-! ### Literals, names and numbers -/

variable {ordered : Bool}

theorem return_not_mem_quote {s : String} (h : '\r' ∉ s.toList) : '\r' ∉ (quote s).toList := by
  have char : ∀ c, c ≠ '\r' → '\r' ∉ escapeChar c := by
    intro c hc hmem
    unfold escapeChar at hmem
    split_ifs at hmem <;> grind
  rw [toList_quote]
  simp only [List.mem_cons, List.mem_append, List.mem_flatMap, List.not_mem_nil, or_false, not_or, not_exists,
    not_and]
  exact ⟨by decide, fun c hc => char c (fun heq => h (heq ▸ hc)), by decide⟩

theorem reads_quote {s : String} (h : '\r' ∉ s.toList) : Reads .any (quote s) [.literal s] := by
  have sound : (Token.literal s).sound = true := by simpa [Token.sound] using h
  have reads := Reads.token (F := .any) sound (return_not_mem_quote h) rfl
  rwa [Token.spelled, String.ofList_toList] at reads

theorem Spelled.quote {s : String} (h : '\r' ∉ s.toList) : Spelled ordered .any (quote s) [.literal] :=
  ⟨_, reads_quote h, .token rfl .nil⟩

theorem starts_quote (s : String) : Starts .bracket (quote s) :=
  ⟨'"', _, toList_quote s, rfl⟩

/-- A name that is no keyword. -/
def IsPlainName (x : String) : Prop := IsName x ∧ x ∉ keywords

theorem reads_word {x : String} (hx : IsName x) : Reads .word x [.word x] := by
  obtain ⟨c, cs, heq, hdigit, hall⟩ := hx
  have sound : (Token.word x).sound = true := by
    simp only [Token.sound, heq, hdigit, Bool.not_false, Bool.true_and, List.all_eq_true]
    exact hall
  have clean : '\r' ∉ x.toList := IsName.not_mem ⟨c, cs, heq, hdigit, hall⟩ (by decide)
  have reads := Reads.token (F := .word) sound clean rfl
  rwa [Token.spelled, String.ofList_toList] at reads

theorem Spelled.word {x : String} (hx : IsPlainName x) : Spelled ordered .word x [.name] :=
  ⟨_, reads_word hx.1, .token (by simp [Token.shape, hx.2]) .nil⟩

theorem IsName.starts {x : String} (hx : IsName x) : Starts .bracket x := by
  obtain ⟨c, cs, heq, -, hall⟩ := hx
  refine ⟨c, cs, heq, ?_⟩
  have hc := hall c List.mem_cons_self
  have apart : c ≠ '[' ∧ c ≠ '=' := by
    constructor <;> rintro rfl <;> revert hc <;> decide
  simp [Follow.admits, apart]

theorem word_of_stop (next : Option Char) (h : Follow.stop.admits next = true) : Follow.word.admits next = true := by
  have each : ∀ next ∈ Follow.stops, Follow.word.admits next = true := by decide
  exact each next (List.contains_iff_mem.mp h)

theorem Spelled.name {x : String} (hx : IsPlainName x) : Spelled ordered .stop x [.name] :=
  (Spelled.word hx).narrow word_of_stop

/-- What follows the first name of a path. -/
def accesses (names : List String) : String := join (names.map ("." ++ ·))

theorem accesses_cons (x : String) (names : List String) : accesses (x :: names) = "." ++ x ++ accesses names := rfl

theorem starts_access (x : String) (names : List String) : Starts .word (accesses (x :: names)) :=
  ⟨'.', (x ++ accesses names).toList, by simp [accesses_cons], by decide⟩

theorem starts_name {x : String} (hx : IsPlainName x) : Starts .name x := by
  obtain ⟨⟨c, cs, heq, hdigit, hall⟩, -⟩ := hx
  exact ⟨c, cs, heq, by simp [Follow.admits, hdigit, hall c List.mem_cons_self]⟩

/-- The names behind the first one of a path make it a place to write to, or to read from. -/
theorem Spelled.access {x : String} {names : List String} (h : ∀ y ∈ x :: names, IsPlainName y) :
    Spelled ordered .stop (accesses (x :: names)) [.access] ∧
      Spelled ordered .stop (accesses (x :: names)) [.suffixes] := by
  have dot : Spelled ordered .name "." ["."] := .fixed (by decide)
  induction names generalizing x with
  | nil =>
    have hx := h x List.mem_cons_self
    have last := dot.followed (Spelled.name hx) (starts_name hx)
    rw [accesses, List.map_singleton, join_cons, join, List.foldr_nil, String.append_empty]
    exact ⟨last.as (by decide), last.as (by decide)⟩
  | cons y names ih =>
    obtain ⟨hx, hnames⟩ := List.forall_mem_cons.mp h
    obtain ⟨haccess, hsuffixes⟩ := ih hnames
    have first := dot.followed (Spelled.word hx) (starts_name hx)
    have more := starts_access y names
    rw [accesses, List.map_cons, join_cons]
    exact ⟨(first.followed haccess more).as (by decide),
      (first.followed hsuffixes more).as (by decide)⟩

/-! ### Numbers -/

/-- The parts of a numeral. -/
structure NumeralParts (whole fraction tail : List Char) : Prop where
  ne_nil : whole ≠ []
  whole : ∀ c ∈ whole, c.isDigit = true
  fraction : fraction = [] ∨ ∃ ds, fraction = '.' :: ds ∧ ∀ c ∈ ds, c.isDigit = true
  tail : tail = [] ∨ ∃ e : Int, tail = 'e' :: Decimal.scaleText e

namespace NumeralParts

variable {whole fraction tail : List Char}

theorem isExponent (h : NumeralParts whole fraction tail) : isExponent tail = true := by
  rcases h.tail with rfl | ⟨e, rfl⟩
  · rfl
  · have digit : (Decimal.digits e.natAbs).all Char.isDigit = true :=
      List.all_eq_true.mpr fun c => Decimal.isDigit_of_mem_digits
    have nonempty : (Decimal.digits e.natAbs).isEmpty = false := by simp [Decimal.digits_ne_nil]
    rw [Decimal.scaleText, Lua.isExponent, digit, nonempty]
    split_ifs <;> rfl

theorem dropWhile_tail (h : NumeralParts whole fraction tail) : tail.dropWhile Char.isDigit = tail := by
  rcases h.tail with rfl | ⟨e, rfl⟩ <;> rfl

theorem isNumeral (h : NumeralParts whole fraction tail) : isNumeral (whole ++ fraction ++ tail) = true := by
  obtain ⟨c, cs, rfl⟩ := List.exists_cons_of_ne_nil h.ne_nil
  have front : ((c :: cs ++ fraction ++ tail).takeWhile Char.isDigit).isEmpty = false := by
    simp [h.whole c List.mem_cons_self]
  rw [Lua.isNumeral, front, List.append_assoc, List.dropWhile_append_of_pos h.whole, Bool.not_false, Bool.true_and]
  rcases h.fraction with rfl | ⟨ds, rfl, hds⟩
  · rw [List.nil_append, h.dropWhile_tail]
    split
    · next rest heq =>
      rcases h.tail with htail | ⟨e, htail⟩
      · cases htail
      · exact absurd (List.cons.inj htail).1 (by decide)
    · exact h.isExponent
  · show Lua.isExponent ((ds ++ tail).dropWhile Char.isDigit) = true
    rw [List.dropWhile_append_of_pos hds, h.dropWhile_tail]
    exact h.isExponent

theorem numeralSpan_plain (rest : List Char) : {ds : List Char} →
    (∀ c ∈ ds, isNumeralChar c = true ∧ (c == 'e' || c == 'E') = false) →
    numeralSpan (ds ++ rest) = (ds ++ (numeralSpan rest).1, (numeralSpan rest).2)
  | [], _ => rfl
  | c :: ds, h => by
    obtain ⟨hc, hds⟩ := List.forall_mem_cons.mp h
    rw [List.cons_append, numeralSpan_cons hc.1 hc.2, numeralSpan_plain rest hds]
    rfl

theorem plain_of_isDigit {c : Char} (h : c.isDigit = true) :
    isNumeralChar c = true ∧ (c == 'e' || c == 'E') = false := by
  refine ⟨isNumeralChar_of_isDigit h, Bool.eq_false_iff.mpr fun hmark => ?_⟩
  rcases Bool.or_eq_true_iff.mp hmark with hmark | hmark <;> rw [eq_of_beq hmark] at h <;> revert h <;> decide

theorem numeralSpan (h : NumeralParts whole fraction tail) :
    numeralSpan (whole ++ fraction ++ tail ++ ['+']) = (whole ++ fraction ++ tail, ['+']) := by
  have plain : ∀ c ∈ whole ++ fraction, isNumeralChar c = true ∧ (c == 'e' || c == 'E') = false := by
    intro c hc
    rcases List.mem_append.mp hc with hc | hc
    · exact plain_of_isDigit (h.whole c hc)
    · rcases h.fraction with rfl | ⟨ds, rfl, hds⟩
      · cases hc
      · rcases List.mem_cons.mp hc with rfl | hc
        · decide
        · exact plain_of_isDigit (hds c hc)
  have last : Lua.numeralSpan (tail ++ ['+']) = (tail, ['+']) := by
    rcases h.tail with rfl | ⟨e, rfl⟩
    · rfl
    · have sign : ((if e < 0 then '-' else '+') == '+' || (if e < 0 then '-' else '+') == '-') = true := by
        split_ifs <;> rfl
      have digits := @numeralSpan_plain ['+'] (Decimal.digits e.natAbs) fun c hc =>
        plain_of_isDigit (Decimal.isDigit_of_mem_digits hc)
      rw [Decimal.scaleText, List.cons_append, List.cons_append, Lua.numeralSpan, sign, digits]
      simp [Lua.numeralSpan, isNumeralChar, isIdentifierChar]
  rw [List.append_assoc, numeralSpan_plain _ plain, last]

end NumeralParts

theorem exists_numeralParts (n : Number) : ∃ whole fraction tail, n.magnitude = whole ++ fraction ++ tail ∧
    NumeralParts whole fraction tail := by
  have digit : ∀ n : Nat, ∀ c ∈ Decimal.digits n, c.isDigit = true := fun n c => Decimal.isDigit_of_mem_digits
  cases n with
  | integer n =>
    exact ⟨Decimal.digits n.natAbs, [], [], by simp [Number.magnitude], Decimal.digits_ne_nil _, digit _, .inl rfl,
      .inl rfl⟩
  | decimal d =>
    rw [Number.magnitude]
    rcases Decimal.magnitudeText_cases d.significand d.exponent with h | h
    · obtain ⟨whole, decimals, hwhole, pointed⟩ := Decimal.positional_pointed d.significand d.exponent
      refine ⟨whole, '.' :: decimals, [], by rw [h, hwhole, List.append_nil], pointed.ne_nil,
        fun c hc => pointed.isDigit c (List.mem_append_left _ hc),
        .inr ⟨decimals, rfl, fun c hc => pointed.isDigit c (List.mem_append_right _ hc)⟩, .inl rfl⟩
    · obtain ⟨c, cs, hcs⟩ := List.exists_cons_of_ne_nil (Decimal.digits_ne_nil d.significand)
      have each := digit d.significand
      rw [hcs] at each h
      obtain ⟨hc, hrest⟩ := List.forall_mem_cons.mp each
      have first : ∀ d ∈ [c], d.isDigit = true := List.forall_mem_singleton.mpr hc
      cases cs with
      | nil => exact ⟨[c], [], _, h, List.cons_ne_nil _ _, first, .inl rfl, .inr ⟨_, rfl⟩⟩
      | cons c' cs =>
        exact ⟨[c], '.' :: c' :: cs, _, h, List.cons_ne_nil _ _, first, .inr ⟨_, rfl, hrest⟩, .inr ⟨_, rfl⟩⟩

theorem Spelled.magnitude (n : Number) : Spelled ordered .stop (String.ofList n.magnitude) [.numeral] := by
  obtain ⟨whole, fraction, tail, heq, parts⟩ := exists_numeralParts n
  have sound : (Token.numeral (String.ofList n.magnitude)).sound = true := by
    rw [Token.sound, String.toList_ofList, heq, parts.isNumeral, parts.numeralSpan, beq_self_eq_true, Bool.and_self]
  have clean : '\r' ∉ (Token.numeral (String.ofList n.magnitude)).spelled := by
    rw [Token.spelled, String.toList_ofList]
    exact fun h => absurd (Number.isNumberChar_of_mem_magnitude h) (by decide)
  have reads := Reads.token (F := .stop) sound clean rfl
  rw [Token.spelled, String.ofList_toList] at reads
  exact ⟨_, reads, .token rfl .nil⟩

theorem text_eq_signed (n : Number) :
    n.text = (if n.isNegative then "-" else "") ++ String.ofList n.magnitude := by
  apply String.toList_injective
  rw [n.toList_text, String.toList_append, String.toList_ofList]
  split_ifs <;> rfl

theorem starts_magnitude {F : Follow} (n : Number) (h : ∀ c, c.isDigit = true → F.admits (some c) = true) :
    Starts F (String.ofList n.magnitude) := by
  obtain ⟨c, cs, heq, hc⟩ := n.exists_magnitude
  exact ⟨c, cs, by rw [String.toList_ofList, heq], h c hc⟩

/-- A number is an operand, also where it has a sign. -/
theorem Spelled.number (n : Number) : Spelled ordered .stop n.text [.operand] := by
  have digits : Spelled ordered .stop (String.ofList n.magnitude) [.numeral] := .magnitude n
  rw [text_eq_signed]
  split_ifs
  · have minus : Spelled ordered .digit "-" ["-"] := .fixed (by decide)
    have front : Starts .digit (String.ofList n.magnitude) := starts_magnitude n fun c hc => by
      simpa [Follow.admits] using hc
    exact (minus.followed digits front).as (by decide)
  · rw [String.empty_append]
    exact digits.as (by decide)

theorem starts_number (n : Number) : Starts .bracket n.text := by
  rw [text_eq_signed]
  split_ifs
  · exact (Starts.fixed (by decide)).append _
  · rw [String.empty_append]
    refine starts_magnitude n fun c hc => ?_
    have apart : c ≠ '[' ∧ c ≠ '=' := by
      constructor <;> rintro rfl <;> revert hc <;> decide
    simp [Follow.admits, apart]

/-! ### Comments and margins -/

theorem mem_splitClosers {c : Char} {cs : List Char} (h : c ∈ splitClosers cs) : c ∈ cs ∨ c = ' ' := by
  fun_induction splitClosers cs with
  | case1 cs ih =>
    simp only [List.mem_cons] at h ⊢
    rcases h with h | h | h | h
    · exact .inl (.inl h)
    · exact .inr h
    · exact .inl (.inl h)
    · exact (ih h).imp_left fun h => .inr (.inr h)
  | case2 d cs _ ih =>
    rcases List.mem_cons.mp h with h | h
    · exact .inl (List.mem_cons.mpr (.inl h))
    · exact (ih h).imp_left (List.mem_cons_of_mem d)
  | case3 => cases h

theorem Spelled.inlineComment {text : String} (hreturn : '\r' ∉ text.toList)
    (hcloser : ¬ [']', ']', ']'] <:+: text.toList) : Spelled ordered .any (inlineComment text) [] := by
  refine .skipped ?_ ((isComment_inlineComment_iff text).mpr hcloser).skipped
  rw [toList_inlineComment]
  simp only [List.mem_cons, List.mem_append, mem_oneLine_iff (c := '\r') (by decide) (by decide),
    String.toList_ofList, List.not_mem_nil, or_false]
  have inside : '\r' ∉ splitClosers text.toList := fun h => (mem_splitClosers h).elim hreturn (by decide)
  simp [inside]

theorem Spelled.blanks (n : Nat) : Spelled ordered .any (String.ofList (List.replicate n ' ')) [] := by
  refine .skipped ?_ (skipped_of_blank _ ?_) <;> rw [String.toList_ofList]
  · simp
  · intro c hc
    rw [List.eq_of_mem_replicate hc]
    rfl

/-- A comment up to the end of the line. -/
theorem Spelled.lineComment {c : Char} {t : String} {cs : List Char} (ht : t.toList = '-' :: '-' :: c :: cs)
    (hc : c ≠ '[') (hbreak : ∀ d ∈ c :: cs, isLineBreak d = false) : Spelled ordered .any (t ++ "\n") [] := by
  refine .skipped ?_ ?_ <;> rw [String.toList_append, ht]
  · intro h
    rcases List.mem_append.mp h with h | h
    · rcases List.mem_cons.mp h with h | h
      · exact absurd h (by decide)
      · rcases List.mem_cons.mp h with h | h
        · exact absurd h (by decide)
        · exact absurd (hbreak _ h) (by decide)
    · exact absurd h (by decide)
  · exact ((isLineComment_iff hc cs).mpr hbreak).skipped

end Lua
end GameScript
