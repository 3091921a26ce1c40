import GameScript.Assembly
import GameScript.Proofs.Ledger
import GameScript.Proofs.Lua.Comment
import GameScript.Proofs.Lua.Token

/-! Texts of a program in the comments of a unit: the name at a reference to a tile, the tag of a command or
of an expression that is not known, and the messages at the end. Such a comment says nothing to the program just
when the text in it does not end it. -/

namespace GameScript
namespace Compile

open Lua

/-! ### References to tiles -/

theorem toList_toString_nat (n : Nat) :
    ∃ c cs, (toString n).toList = c :: cs ∧ c.isDigit = true := by
  rw [Nat.toString_eq_ofList_toDigits, String.toList_ofList]
  obtain ⟨c, cs, hcs⟩ := List.exists_cons_of_ne_nil (Nat.toDigits_ne_nil (n := n) (b := 10))
  exact ⟨c, cs, hcs, Nat.isDigit_of_mem_toDigits (by decide) (by decide) (hcs ▸ List.mem_cons_self)⟩

/-- Neither a blank nor a comment is in front of a number that is written out. -/
theorem fromToken_int (id : Int) (rest : List Char) :
    fromToken ((toString id).toList ++ rest) = (toString id).toList ++ rest := by
  have digit : ∀ {c : Char}, c.isDigit = true → c ≠ '-' ∧ isBlank c = false := by
    intro c hc
    refine ⟨fun h => ?_, Bool.eq_false_iff.mpr fun h => ?_⟩
    · subst h
      cases hc
    · simp only [isBlank, isLineBreak, Bool.or_eq_true, beq_iff_eq] at h
      rcases h with ((((rfl | rfl) | rfl) | rfl) | rfl) | rfl <;> cases hc
  cases id with
  | ofNat n =>
    obtain ⟨c, cs, hcs, hc⟩ := toList_toString_nat n
    show fromToken ((toString n).toList ++ rest) = (toString n).toList ++ rest
    rw [hcs]
    exact fromToken_self (digit hc).2 (afterComment?_of_head (digit hc).1 _)
  | negSucc n =>
    obtain ⟨c, cs, hcs, hc⟩ := toList_toString_nat (n + 1)
    have sign : (toString (Int.negSucc n)).toList = '-' :: c :: cs := by
      show ("-" ++ toString (n + 1)).toList = _
      rw [String.toList_append, hcs]
      rfl
    rw [sign]
    refine fromToken_self rfl ?_
    unfold afterComment?
    split
    · next heq => exact absurd (List.cons.inj (List.cons.inj heq).2).1 (digit hc).1
    · rfl

/-- The comment at a reference to a tile is on one line. It closes at its end just when the name has no three
closing brackets in a row, and then the reference reads as the id wherever it stands. -/
theorem inlineComment_complete_iff (name : String) :
    (∃ body, (inlineComment name).toList = "--[[".toList ++ body ++ "]]".toList) ∧
    '\n' ∉ (inlineComment name).toList ∧
    (afterFirst [']', ']'] (inlineComment name).toList = some [] ↔ ¬ [']', ']', ']'] <:+: name.toList) ∧
    (IsComment (inlineComment name).toList ↔ ¬ [']', ']', ']'] <:+: name.toList) ∧
    ∀ bodies s id, ∃ t, expression bodies s (.tile id name) = pure t ∧
      t = inlineComment name ++ " " ++ toString id ∧
      (¬ [']', ']', ']'] <:+: name.toList →
        ∀ rest, fromToken (t.toList ++ rest) = (toString id).toList ++ rest) := by
  refine ⟨⟨'(' :: (oneLine (String.ofList (splitClosers name.toList))).toList ++ [')'], ?_⟩,
    newline_not_mem_inlineComment name, afterFirst_inlineComment_iff name, isComment_inlineComment_iff name,
    fun bodies s id => ⟨tileText id name, by rw [expression], rfl, fun h rest => ?_⟩⟩
  · rw [toList_inlineComment]
    simp
  · have comment : Skipped (inlineComment name).toList := ((isComment_inlineComment_iff name).mpr h).skipped
    have blank : Skipped [' '] := skipped_of_blank _ (List.forall_mem_singleton.mpr rfl)
    have text : (tileText id name).toList ++ rest =
        (inlineComment name).toList ++ [' '] ++ ((toString id).toList ++ rest) := by simp [tileText]
    rw [text, comment.append blank, fromToken_int]

/-- A name with a pair of closing brackets in it and one at its end. -/
theorem inlineComment_complete_door :
    ∃ t, expression body (Scope.initial .standard) (.tile 7 "a]]b]") = pure t ∧
      IsComment (inlineComment "a]]b]").toList ∧
      ∀ rest, fromToken (t.toList ++ rest) = "7".toList ++ rest := by
  have apart : ¬ [']', ']', ']'] <:+: "a]]b]".toList := by decide
  obtain ⟨-, -, -, comment, reads⟩ := inlineComment_complete_iff "a]]b]"
  obtain ⟨t, ht, -, hrest⟩ := reads body (Scope.initial .standard) 7
  exact ⟨t, ht, comment.mpr apart, hrest apart⟩

/-- Three closing brackets in a name close the comment before its end. -/
theorem inlineComment_closes_early :
    inlineComment "]]]" = "--[[(] ]])]]" ∧
    afterFirst [']', ']'] (inlineComment "]]]").toList = some ")]]".toList ∧
    ¬ IsComment (inlineComment "]]]").toList ∧
    fromToken (tileText 7 "]]]").toList = ")]] 7".toList := by
  have text : inlineComment "]]]" = "--[[(] ]])]]" := by decide +kernel
  refine ⟨text, by rw [text]; decide, fun h => ?_, ?_⟩
  · exact (isComment_inlineComment_iff "]]]").mp h ⟨[], [], rfl⟩
  · have reference : (tileText 7 "]]]").toList = "--[[(] ]])]] 7".toList := by decide +kernel
    have comment : afterComment? "--[[(] ]])]] 7".toList = some ")]] 7".toList := by decide
    rw [reference, fromToken_comment comment]
    exact fromToken_self (by decide) (by decide)

/-! ### What is not known -/

/-- The line that stands for a command that is not known. -/
def unknownLine (tag : String) : String := "--unknown command code '" ++ tag ++ "'"

/-- The comment at the value that stands for an expression that is not known. -/
def unknownRemark (tag : String) : String := "--[[unknown expression code '" ++ tag ++ "']]"

theorem run_unknown_command (c : Context) (tag : String) :
    c.run (command · (.unknown tag)) =
      (.ok (c.scope.margin ++ unknownLine tag ++ "\n"), c.record [.note (.unknownCommand tag)]) := rfl

theorem unknown_text (tag : String) : s!"nil --[[unknown expression code '{tag}']]" = "nil " ++ unknownRemark tag := by
  have value : "nil --[[unknown expression code '" = "nil " ++ "--[[unknown expression code '" := by
    decide
  show "nil --[[unknown expression code '" ++ tag ++ "']]" = _
  unfold unknownRemark
  rw [value, String.append_assoc, String.append_assoc, String.append_assoc]

theorem run_unknown_expression (c : Context) (tag : String) :
    c.run (expr · (.unknown tag)) =
      (.ok ("nil " ++ unknownRemark tag), c.record [.note (.unknownExpression tag)]) := by
  rw [← unknown_text]
  show (Outcome.result (expression body c.scope (.unknown tag)), _) = _
  rw [expression]
  rfl

theorem toList_unknownLine (tag : String) : (unknownLine tag).toList =
    '-' :: '-' :: 'u' :: ("nknown command code '".toList ++ (tag.toList ++ "'".toList)) := by
  have opener : "--unknown command code '".toList = '-' :: '-' :: 'u' :: "nknown command code '".toList := by
    decide
  unfold unknownLine
  rw [String.toList_append, String.toList_append, opener, List.append_assoc]
  simp only [List.cons_append]

theorem toList_unknownRemark (tag : String) : (unknownRemark tag).toList = '-' :: '-' :: '[' :: '[' ::
    ("unknown expression code '".toList ++ tag.toList ++ ['\x27', ']', ']']) := by
  have opener : "--[[unknown expression code '".toList =
      '-' :: '-' :: '[' :: '[' :: "unknown expression code '".toList := by decide
  have closer : "']]".toList = ['\x27', ']', ']'] := by decide
  unfold unknownRemark
  rw [String.toList_append, String.toList_append, opener, closer]
  simp only [List.cons_append]

theorem isLineComment_unknownLine_iff (tag : String) :
    IsLineComment (unknownLine tag).toList ↔ ∀ c ∈ tag.toList, isLineBreak c = false := by
  have front : ∀ c ∈ 'u' :: "nknown command code '".toList, isLineBreak c = false :=
    isLineBreak_of_any (by decide)
  have back : ∀ c ∈ "'".toList, isLineBreak c = false := isLineBreak_of_any (by decide)
  rw [toList_unknownLine, isLineComment_iff (by decide), ← List.cons_append, List.forall_mem_append,
    List.forall_mem_append]
  exact ⟨fun h => h.2.1, fun h => ⟨front, h, back⟩⟩

theorem isComment_unknownRemark_iff (tag : String) :
    IsComment (unknownRemark tag).toList ↔ ¬ [']', ']'] <:+: tag.toList := by
  rw [toList_unknownRemark, isComment_iff (by decide), infix_append_iff (by decide)]

/-- A text with a line break at its end is one line. -/
theorem count_newline_iff (t : String) : (t ++ "\n").toList.count '\n' = 1 ↔ '\n' ∉ t.toList := by
  rw [String.toList_append, List.count_append, ← List.count_eq_zero]
  exact Nat.add_eq_right

theorem newline_mem_unknownLine_iff (tag : String) :
    '\n' ∈ (unknownLine tag).toList ↔ '\n' ∈ tag.toList := by
  have front : '\n' ∉ '-' :: '-' :: 'u' :: "nknown command code '".toList := by decide
  have back : '\n' ∉ "'".toList := by decide
  rw [toList_unknownLine, ← List.cons_append, ← List.cons_append, ← List.cons_append, List.mem_append,
    List.mem_append, or_iff_right front, or_iff_left back]

/-- A text on one line only goes on behind a carriage return. -/
theorem oneLine_unbroken_iff (m : String) :
    (∀ c ∈ (oneLine m).toList, isLineBreak c = false) ↔ '\r' ∉ m.toList := by
  rw [← mem_oneLine_iff (by decide) (by decide)]
  constructor
  · intro h hmem
    cases h _ hmem
  · intro h c hc
    refine Bool.eq_false_iff.mpr fun hbreak => ?_
    rcases Bool.or_eq_true _ _ ▸ hbreak with heq | heq
    · exact newline_not_mem_oneLine m (beq_iff_eq.mp heq ▸ hc)
    · exact h (beq_iff_eq.mp heq ▸ hc)

theorem isLineComment_message_iff (m : String) :
    IsLineComment ("-- " ++ oneLine m).toList ↔ '\r' ∉ m.toList := by
  have text : ("-- " ++ oneLine m).toList = '-' :: '-' :: ' ' :: (oneLine m).toList := by simp
  rw [text, isLineComment_iff (by decide), List.forall_mem_cons, and_iff_right (by rfl), oneLine_unbroken_iff]

theorem isLineComment_entry_iff {about : String} (h : '\r' ∉ about.toList) (tag : String) :
    IsLineComment ("-- " ++ oneLine (about ++ tag)).toList ↔ '\r' ∉ tag.toList := by
  rw [isLineComment_message_iff, String.toList_append, List.mem_append, or_iff_right h]

/-- A text of complete lines still ends with one after more of them. -/
theorem ends_line_join {t : String} (ht : ∃ front, t = front ++ "\n") (lines : List String) :
    ∃ front, t ++ join (lines.map fun l => l ++ "\n") = front ++ "\n" := by
  induction lines generalizing t with
  | nil =>
    obtain ⟨front, rfl⟩ := ht
    exact ⟨front, String.append_empty⟩
  | cons l lines ih =>
    rw [List.map_cons, join_cons, ← String.append_assoc]
    exact ih ⟨t ++ l, String.append_assoc.symm⟩

theorem trailer_eq_lines {ds : List String} (h : ds ≠ []) : Assembly.trailer ds =
    "\n-- diagnostics:\n" ++ join ((ds.map fun m => "-- " ++ oneLine m).map fun l => l ++ "\n") := by
  rw [Assembly.trailer, if_neg (by simpa using h), List.map_map]
  rfl

/-- A message that has been noted stands at the end of the unit, on a line of its own. -/
theorem trailer_line {ds : List String} {m : String} (h : m ∈ ds) :
    ∃ before after, Assembly.trailer ds = before ++ "\n" ++ ("-- " ++ oneLine m) ++ "\n" ++ after := by
  obtain ⟨ms, ms', rfl⟩ := List.append_of_mem h
  have opening : ∃ front, "\n-- diagnostics:\n" = front ++ "\n" :=
    ⟨"\n-- diagnostics:", by decide⟩
  obtain ⟨before, hbefore⟩ := ends_line_join opening (ms.map fun d => "-- " ++ oneLine d)
  refine ⟨before, join ((ms'.map fun d => "-- " ++ oneLine d).map fun l => l ++ "\n"), ?_⟩
  rw [trailer_eq_lines (List.ne_nil_of_mem h), ← hbefore, List.map_append, List.map_append, join_append,
    List.map_cons, List.map_cons, join_cons]
  simp only [String.append_assoc]

/-- A message is noted, and however the compile goes on, it has a line of its own at the end of the unit. -/
structure Reported (c : Context) (m : String) : Prop where
  noted : ∀ log, m ∈ (c.record log).ledger.diagnostics
  line : ∀ log, ∃ before after, Assembly.trailer (c.record log).ledger.diagnostics =
    before ++ "\n" ++ ("-- " ++ oneLine m) ++ "\n" ++ after

theorem reported_note (c : Context) (d : Diagnostic) : Reported (c.record [.note d]) d.message := by
  have noted : ∀ log, d.message ∈ ((c.record [.note d]).record log).ledger.diagnostics := by
    intro log
    refine ((c.record [.note d]).ledger.grows_recordAll log).diagnostics.subset ?_
    show d.message ∈ (c.ledger.note d.message).diagnostics
    rw [Ledger.note]
    split
    · assumption
    · exact List.mem_append_right _ (List.mem_singleton.mpr rfl)
  exact ⟨noted, fun log => trailer_line (noted log)⟩

/-- What is compiled for a command or an expression that is not known, and the message about it. The line of a
command is one comment, which a reader passes over, just when its tag is on one line. The comment at the value
of an expression closes at its end just when the tag does not close it. The message has one line, which is a
comment just when no carriage return ends it. -/
theorem unknown_inert_iff (c : Context) (tag : String) :
    (∃ line c', c.run (command · (.unknown tag)) = (.ok (c.scope.margin ++ line ++ "\n"), c') ∧
      line = "--unknown command code '" ++ tag ++ "'" ∧
      Reported c' ("unknown command code: " ++ tag) ∧
      ((c.scope.margin ++ line ++ "\n").toList.count '\n' = 1 ↔ '\n' ∉ tag.toList) ∧
      (IsLineComment line.toList ↔ ∀ ch ∈ tag.toList, isLineBreak ch = false) ∧
      ((∀ ch ∈ tag.toList, isLineBreak ch = false) → Skipped (c.scope.margin ++ line ++ "\n").toList)) ∧
    (∃ remark c', c.run (expr · (.unknown tag)) = (.ok ("nil " ++ remark), c') ∧
      remark = "--[[unknown expression code '" ++ tag ++ "']]" ∧
      Reported c' ("unknown expression code: " ++ tag) ∧
      (IsComment remark.toList ↔ ¬ [']', ']'] <:+: tag.toList) ∧
      (¬ [']', ']'] <:+: tag.toList → Skipped (" " ++ remark).toList)) ∧
    ∀ m ∈ ["unknown command code: " ++ tag, "unknown expression code: " ++ tag],
      ("-- " ++ oneLine m ++ "\n").toList.count '\n' = 1 ∧
      (IsLineComment ("-- " ++ oneLine m).toList ↔ '\r' ∉ tag.toList) := by
  have margin : '\n' ∉ c.scope.margin.toList ∧ Skipped c.scope.margin.toList := by
    rw [Scope.margin, String.toList_ofList]
    refine ⟨fun h => ?_, skipped_of_blank _ fun d hd => List.eq_of_mem_replicate hd ▸ rfl⟩
    cases List.eq_of_mem_replicate h
  refine ⟨⟨unknownLine tag, _, run_unknown_command c tag, rfl, reported_note c (.unknownCommand tag), ?_,
      isLineComment_unknownLine_iff tag, fun h => ?_⟩,
    ⟨unknownRemark tag, _, run_unknown_expression c tag, rfl, reported_note c (.unknownExpression tag),
      isComment_unknownRemark_iff tag, fun h => ?_⟩, fun m hm => ⟨?_, ?_⟩⟩
  · rw [count_newline_iff, String.toList_append, List.mem_append, or_iff_right margin.1,
      newline_mem_unknownLine_iff]
  · have line := ((isLineComment_unknownLine_iff tag).mpr h).skipped
    rw [String.append_assoc, String.toList_append, String.toList_append]
    exact margin.2.append line
  · have remark := ((isComment_unknownRemark_iff tag).mpr h).skipped
    rw [String.toList_append]
    exact Skipped.append (skipped_of_blank _ (List.forall_mem_singleton.mpr rfl)) remark
  · rw [count_newline_iff, String.toList_append, List.mem_append]
    exact not_or.mpr ⟨by decide, newline_not_mem_oneLine m⟩
  · rcases List.mem_pair.mp hm with rfl | rfl
    · exact isLineComment_entry_iff (by decide) tag
    · exact isLineComment_entry_iff (by decide) tag

/-- A tag that stays in its comments, in a context that is indented. -/
theorem unknown_inert_warp :
    let c : Context := ⟨(Scope.initial .standard).indented 3, .empty⟩
    (∃ line c', c.run (command · (.unknown "a]b--[[")) = (.ok (c.scope.margin ++ line ++ "\n"), c') ∧
      Skipped (c.scope.margin ++ line ++ "\n").toList) ∧
    ∃ remark c', c.run (expr · (.unknown "a]b--[[")) = (.ok ("nil " ++ remark), c') ∧
      Skipped (" " ++ remark).toList := by
  intro c
  obtain ⟨⟨line, c', hline, -, -, -, -, skipped⟩, ⟨remark, c'', hremark, -, -, -, passed⟩, -⟩ :=
    unknown_inert_iff c "a]b--[["
  exact ⟨⟨line, c', hline, skipped (isLineBreak_of_any (by decide))⟩, ⟨remark, c'', hremark, passed (by decide)⟩⟩

/-- A tag that ends the line of its command, and one that closes the comment of its value: what they say next
is a part of the program. -/
theorem unknown_tag_escapes :
    let c := Context.initial .standard
    (∃ t, (c.run (command · (.unknown "\nexit()--"))).1 = .ok t ∧ t.toList.count '\n' = 2 ∧
      fromToken t.toList = "exit()--'\n".toList) ∧
    ∃ remark, (c.run (expr · (.unknown "]]..exit()--[["))).1 = .ok ("nil " ++ remark) ∧
      ¬ IsComment remark.toList ∧ fromToken (" " ++ remark).toList = "..exit()--[[']]".toList := by
  intro c
  refine ⟨⟨_, congrArg Prod.fst (run_unknown_command c _), ?_, ?_⟩,
    ⟨_, congrArg Prod.fst (run_unknown_expression c _), fun h => ?_, ?_⟩⟩
  · decide
  · have text : (c.scope.margin ++ unknownLine "\nexit()--" ++ "\n").toList =
        ' ' :: ' ' :: "--unknown command code '\nexit()--'\n".toList := by decide
    have comment : afterComment? "--unknown command code '\nexit()--'\n".toList =
        some ('\n' :: "exit()--'\n".toList) := by decide
    rw [text, fromToken_blank rfl, fromToken_blank rfl, fromToken_comment comment, fromToken_blank rfl]
    exact fromToken_self (by decide) (by decide)
  · exact (isComment_unknownRemark_iff _).mp h ⟨[], "..exit()--[[".toList, by decide⟩
  · have text : (" " ++ unknownRemark "]]..exit()--[[").toList =
        ' ' :: "--[[unknown expression code ']]..exit()--[[']]".toList := by decide
    have comment : afterComment? "--[[unknown expression code ']]..exit()--[[']]".toList =
        some "..exit()--[[']]".toList := by decide
    rw [text, fromToken_blank rfl, fromToken_comment comment]
    exact fromToken_self (by decide) (by decide +kernel)


end Compile
end GameScript
