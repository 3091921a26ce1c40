import GameScript.Proofs.Compile.Phrase
import GameScript.Proofs.Compile.Template

/-! The texts of calls, as a reader of the output finds them: where all arguments are expressions, a call for its
value is one operand, and a call for its effect is a statement or two. -/

namespace GameScript

open Lua

variable {ordered : Bool}

/-- Several expressions, one behind the other. -/
theorem Lua.Spelled.exps : {t : String} → {ts : List String} → (∀ u ∈ t :: ts, IsPhrase ordered u) →
    Spelled ordered .stop (", ".intercalate (t :: ts)) [.exps]
  | t, [], h => by
    rw [String.intercalate_singleton]
    exact (h t List.mem_cons_self).exp.as (by decide)
  | t, u :: us, h => by
    obtain ⟨ht, hus⟩ := List.forall_mem_cons.mp h
    have comma : Spelled ordered .any ", " [","] := .fixed (by decide)
    rw [String.intercalate_cons_cons]
    exact ((ht.exp.followed comma (.fixed (by decide))).append (Spelled.exps hus)).as (by decide)

/-- The text of a call behind the name of the function. -/
theorem Lua.Spelled.arguments {ts : List String} (h : ∀ u ∈ ts, IsPhrase ordered u) :
    Spelled ordered .any ("(" ++ ", ".intercalate ts ++ ")") [.arguments] := by
  have opener : Spelled ordered .any "(" ["("] := .fixed (by decide)
  have closer : Spelled ordered .any ")" [")"] := .fixed (by decide)
  cases ts with
  | nil => exact (opener.append closer).as (by decide)
  | cons t ts =>
    exact ((opener.append (.exps h)).followed closer (.fixed (by decide))).as (by decide)

/-! ### Arguments -/

namespace Argument

def texts : Argument → List String
  | pair x y => [x, y]
  | rect parts => parts
  | callback text => [text]
  | plain text => [text]

/-- All texts of the argument are expressions. -/
def Phrased (ordered : Bool) (a : Argument) : Prop := ∀ t ∈ a.texts, IsPhrase ordered t

theorem snd_mem_texts {a : Argument} {p : Slot × String} (h : p ∈ a.fills) : p.2 ∈ a.texts := by
  cases a with
  | pair x y => rcases List.mem_pair.mp h with rfl | rfl <;> simp [texts]
  | rect parts => exact (List.of_mem_zip h).2
  | callback t =>
    obtain rfl := List.mem_singleton.mp h
    exact List.mem_singleton_self _
  | plain t => cases h

theorem actor_not_mem_fills (a : Argument) (t : String) : (Slot.actor, t) ∉ a.fills := by
  cases a with
  | rect parts => exact fun h => absurd (List.of_mem_zip h).1 (by decide)
  | _ => simp [fills]

end Argument

namespace Call

variable {args : List Argument}

theorem unfilled_phrase (slot : Slot) : IsPhrase ordered slot.unfilled := by
  have each : isPhrase slot.unfilled.toList = true := by cases slot <;> decide
  exact ⟨0, .checked each⟩

theorem slotText_cases (args : List Argument) (slot : Slot) :
    slotText args slot = slot.unfilled ∨ ∃ a ∈ args, (slot, slotText args slot) ∈ a.fills := by
  unfold slotText
  cases hlookup : (args.flatMap Argument.fills).reverse.lookup slot with
  | none => exact .inl rfl
  | some t =>
    obtain ⟨before, after, heq, -⟩ := List.lookup_eq_some_iff.mp hlookup
    have mem : (slot, t) ∈ args.flatMap Argument.fills := by
      rw [← List.mem_reverse, heq]
      simp
    exact .inr (List.mem_flatMap.mp mem)

/-- No argument fills the slot of the actor. -/
theorem slotText_actor (args : List Argument) : slotText args .actor = "__actor" := by
  rcases slotText_cases args .actor with heq | ⟨a, -, hfill⟩
  · exact heq
  · exact absurd hfill (a.actor_not_mem_fills _)

/-- What is assembled for a call is the text of an argument, or stands in a slot that no argument fills. -/
theorem mem_assembled_cases {op t : String} (h : t ∈ assembled op args) :
    (∃ slot : Slot, t = slot.unfilled) ∨ ∃ a ∈ args, t ∈ a.texts := by
  rcases List.mem_append.mp h with h | h
  · obtain ⟨slot, -, rfl⟩ := List.mem_map.mp h
    rcases slotText_cases args slot with heq | ⟨a, ha, hfill⟩
    · exact .inl ⟨slot, heq⟩
    · exact .inr ⟨a, ha, Argument.snd_mem_texts hfill⟩
  · obtain ⟨a, ha, hplain⟩ := List.mem_filterMap.mp h
    cases a with
    | plain text =>
      obtain rfl := Option.some.inj hplain
      exact .inr ⟨_, ha, List.mem_singleton_self _⟩
    | _ => cases hplain

theorem assembled_phrase (h : ∀ a ∈ args, a.Phrased ordered) (op : String) :
    ∀ t ∈ assembled op args, IsPhrase ordered t := by
  intro t ht
  rcases mem_assembled_cases ht with ⟨slot, rfl⟩ | ⟨a, ha, hmem⟩
  · exact unfilled_phrase slot
  · exact h a ha t hmem

/-- An argument that is missing is nil. -/
theorem hole_phrase {ts : List String} (h : ∀ t ∈ ts, IsPhrase ordered t) (i : Nat) :
    IsPhrase ordered (ts[i]?.getD "nil") := by
  cases hi : ts[i]? with
  | none => exact ⟨0, .fixed (by decide)⟩
  | some t => exact h t (List.mem_of_getElem? hi)

/-! ### Functions -/

/-- Behind the letters of the compiler, the name of an operation is a name. -/
theorem isPlainName_prefixed {op : String} (h : op.toList.all isIdentifierChar = true) (kind : CallKind) :
    ∃ name, IsPlainName name ∧ kind.functionPrefix ++ op = "__pulp." ++ name := by
  have plain : ∀ front : String, front.toList.all isIdentifierChar = true → front.toList.head? = some '_' →
      IsPlainName (front ++ op) := by
    intro front hfront hhead
    cases hcs : front.toList with
    | nil => rw [hcs] at hhead; cases hhead
    | cons c cs =>
      rw [hcs] at hfront hhead
      obtain rfl := Option.some.inj hhead
      have text : (front ++ op).toList = '_' :: (cs ++ op.toList) := by
        rw [String.toList_append, hcs, List.cons_append]
      refine ⟨⟨'_', _, text, rfl, ?_⟩, ?_⟩
      · rw [← List.cons_append]
        exact List.forall_mem_append.mpr ⟨List.all_eq_true.mp hfront, List.all_eq_true.mp h⟩
      · intro hkey
        have lower : ∀ k ∈ keywords, k.toList.head? ≠ some '_' := by decide
        exact lower _ hkey (by rw [text]; rfl)
  cases kind with
  | effect => exact ⟨"__fn_" ++ op, plain _ (by decide) (by decide), by
      rw [← String.append_assoc]; congr 1⟩
  | value => exact ⟨"__ex_" ++ op, plain _ (by decide) (by decide), by
      rw [← String.append_assoc]; congr 1⟩

/-- A call of a function, without a template. -/
theorem function_spelled {kind : CallKind} {op : String} (hop : op.toList.all isIdentifierChar = true)
    (htemplate : templateTable.lookup (kind, op) = none) (h : ∀ a ∈ args, a.Phrased ordered) :
    (Spelled ordered .any (text kind op args) [.name, .arguments] ∨
      Spelled ordered .any (text kind op args) [.name, ".", .name, .arguments]) ∧
    Starts .bracket (text kind op args) := by
  have arguments := Spelled.arguments (assembled_phrase h op)
  have opener : Starts .word ("(" ++ ", ".intercalate (assembled op args) ++ ")") :=
    ((Starts.fixed (by decide)).append _).append _
  have whole : text kind op args = callee kind op ++ ("(" ++ ", ".intercalate (assembled op args) ++ ")") := by
    rw [text, htemplate]
    simp only [String.append_assoc]
  rw [whole, callee]
  cases hf : functionTable.lookup (kind, op) with
  | some f =>
    have each : ∀ p ∈ functionTable, isPlainName p.2.toList = true := by decide
    obtain ⟨before, after, heq, -⟩ := List.lookup_eq_some_iff.mp hf
    have plain := isPlainName_iff.mp (each ((kind, op), f) (by rw [heq]; simp))
    rw [String.ofList_toList] at plain
    exact ⟨.inl ((Spelled.word plain).followed arguments opener), plain.1.starts.append _⟩
  | none =>
    obtain ⟨name, plain, hname⟩ := isPlainName_prefixed hop kind
    have front : Spelled ordered .name "__pulp." [.name, "."] := .fixed (by decide)
    rw [Option.getD_none, hname]
    exact ⟨.inr ((front.followed (Spelled.word plain) (starts_name plain)).followed arguments opener),
      ((Starts.fixed (by decide)).append _).append _⟩

/-! ### Templates -/

/-- A part of a template: a text, or the hole for the argument at a position. -/
inductive Segment where
  | text (t : String)
  | hole (digit : Char)

namespace Segment

def written : Segment → List Char
  | text t => t.toList
  | hole digit => ['\x7b', digit, '\x7d']

def filled (args : List String) : Segment → String
  | text t => t
  | hole digit => args[digit.toNat - '0'.toNat]?.getD "nil"

def isPlain : Segment → Bool
  | text t => !t.toList.contains '\x7b'
  | hole digit => digit.isDigit

end Segment

theorem fill_segments (args : List String) : {segments : List Segment} → segments.all Segment.isPlain = true →
    fill (segments.flatMap Segment.written) args = (join (segments.map (Segment.filled args))).toList
  | [], _ => by rw [List.flatMap_nil, fill]; rfl
  | s :: segments, h => by
    obtain ⟨hs, hsegments⟩ := Bool.and_eq_true_iff.mp (List.all_cons.symm.trans h)
    have rest := fill_segments args hsegments
    rw [List.flatMap_cons, List.map_cons, join_cons, String.toList_append, ← rest]
    cases s with
    | text t =>
      have plain : '\x7b' ∉ t.toList := by simpa [Segment.isPlain] using hs
      exact fill_before args _ plain
    | hole digit =>
      have numeral : IsNumeral [digit] := ⟨List.cons_ne_nil digit [], by simpa [Segment.isPlain] using hs⟩
      exact fill_placeholder numeral _ args

/-- The parts one behind the other, with nothing behind the last one. -/
def joined (args : List String) : Segment → List Segment → String
  | s, [] => s.filled args
  | s, s' :: segments => s.filled args ++ joined args s' segments

theorem joined_eq_join (args : List String) : (s : Segment) → (segments : List Segment) →
    joined args s segments = join ((s :: segments).map (Segment.filled args))
  | _, [] => (String.append_empty).symm
  | s, s' :: segments => by
    rw [joined, joined_eq_join args s' segments]
    rfl

/-- The text of a call with a template, part by part. -/
theorem text_eq_joined {kind : CallKind} {op template : String}
    (htemplate : templateTable.lookup (kind, op) = some template) (s : Segment) (segments : List Segment)
    (hplain : ((s :: segments).all Segment.isPlain &&
      (s :: segments).flatMap Segment.written == template.toList) = true)
    (args : List Argument) : text kind op args = joined (assembled op args) s segments := by
  obtain ⟨hall, heq⟩ := Bool.and_eq_true_iff.mp hplain
  rw [text, htemplate, joined_eq_join]
  show String.ofList _ = _
  rw [← eq_of_beq heq, fill_segments _ hall, String.ofList_toList]

/-- An argument in front of operators and other operands. -/
theorem hole_operations {F : Follow} {t u : String} {form : List Symbol} (more : List Symbol)
    (ht : IsPhrase ordered t) (hu : Spelled ordered F u (more ++ form)) (hfront : Starts .stop u)
    (hmore : isInstance [.operations] more = true) : Spelled ordered F (t ++ u) (.exp :: form) :=
  .operations more (ht.exp.followed hu hfront) hmore

/-! ### Operations -/

theorem function_phrase {kind : CallKind} {op : String} (hop : op.toList.all isIdentifierChar = true)
    (htemplate : templateTable.lookup (kind, op) = none) (h : ∀ a ∈ args, a.Phrased ordered) :
    Phrase ordered 0 (text kind op args) := by
  obtain ⟨hspelled, hstarts⟩ := function_spelled hop htemplate h
  rcases hspelled with hspelled | hspelled
  · exact .ofAny hspelled (by decide) hstarts
  · exact .ofAny hspelled (by decide) hstarts

theorem function_stats {kind : CallKind} {op : String} (hop : op.toList.all isIdentifierChar = true)
    (htemplate : templateTable.lookup (kind, op) = none) (h : ∀ a ∈ args, a.Phrased ordered) :
    Spelled ordered .stop (text kind op args) [.stats] := by
  rcases (function_spelled hop htemplate h).1 with hspelled | hspelled
  · exact (hspelled.as (by decide)).weaken
  · exact (hspelled.as (by decide)).weaken

/-- An argument and a constant that it is scaled with, in brackets. -/
theorem scaled_phrase {t u : String} (more : List Symbol) (ht : IsPhrase ordered t)
    (hu : Spelled ordered .any u (more ++ [(")" : Symbol)])) (hfront : Starts .stop u)
    (hmore : isInstance [.operations] more = true) : Phrase ordered 0 ("(" ++ (t ++ u)) := by
  have opener : Spelled ordered .any "(" ["("] := .fixed (by decide)
  exact .ofAny (opener.append (hole_operations more ht hu hfront hmore)) (by decide)
    ((Starts.fixed (by decide)).append _)

/-- A call for its value is an operand. -/
theorem value_phrase (op : ValueOp) (h : ∀ a ∈ args, a.Phrased ordered) :
    Phrase ordered 0 (text .value op.opcode args) := by
  have hole := hole_phrase (assembled_phrase h op.opcode) 0
  cases op with
  | frame =>
    have actor : (assembled "frame" args)[0]?.getD "nil" = "__actor" := slotText_actor args
    have whole : text .value "frame" args = "(" ++ ((assembled "frame" args)[0]?.getD "nil" ++ ".frame or 0)") :=
      text_eq_joined rfl (.text "(") [.hole '0', .text ".frame or 0)"] (by decide) args
    show Phrase ordered 0 (text .value "frame" args)
    rw [whole, actor]
    exact .checked (by decide)
  | invert =>
    have whole : text .value "invert" args = "(__pulp.invert and 1 or 0)" :=
      text_eq_joined rfl (.text "(__pulp.invert and 1 or 0)") [] (by decide) args
    show Phrase ordered 0 (text .value "invert" args)
    rw [whole]
    exact .fixed (by decide)
  | degrees =>
    have whole : text .value "degrees" args = "(" ++ ((assembled "degrees" args)[0]?.getD "nil" ++ " * 360 / __tau)") :=
      text_eq_joined rfl (.text "(") [.hole '0', .text " * 360 / __tau)"] (by decide) args
    show Phrase ordered 0 (text .value "degrees" args)
    rw [whole]
    exact scaled_phrase ["*", .numeral, "/", .name] hole (.fixed (by decide))
      (.fixed (by decide)) (by decide)
  | radians =>
    have whole : text .value "radians" args = "(" ++ ((assembled "radians" args)[0]?.getD "nil" ++ " * __tau / 360)") :=
      text_eq_joined rfl (.text "(") [.hole '0', .text " * __tau / 360)"] (by decide) args
    show Phrase ordered 0 (text .value "radians" args)
    rw [whole]
    exact scaled_phrase ["*", .name, "/", .numeral] hole (.fixed (by decide))
      (.fixed (by decide)) (by decide)
  | _ => exact function_phrase (by decide) (by decide) h

/-- Writing the frame of the actor. -/
theorem frame_stats (h : ∀ a ∈ args, a.Phrased ordered) :
    Spelled ordered .stop (text .effect "frame" args) [.stats] := by
  have hole := hole_phrase (assembled_phrase h "frame") 1
  have actor : (assembled "frame" args)[0]?.getD "nil" = "__actor" := slotText_actor args
  have front : Spelled ordered .any ("__actor" ++ ".frame = ") [.name, ".", .name, "="] :=
    .checked (by decide)
  have whole : text .effect "frame" args =
      (assembled "frame" args)[0]?.getD "nil" ++ (".frame = " ++ (assembled "frame" args)[1]?.getD "nil") :=
    text_eq_joined rfl (.hole '0') [.text ".frame = ", .hole '1'] (by decide) args
  rw [whole, actor, ← String.append_assoc]
  exact (front.append hole.exp).as (by decide)

theorem log_stats (h : ∀ a ∈ args, a.Phrased ordered) :
    Spelled ordered .stop (text .effect "log" args) [.stats] := by
  have hole := hole_phrase (assembled_phrase h "log") 0
  have front : Spelled ordered .any "__print(" [.name, "("] := .fixed (by decide)
  have closer : Spelled ordered .stop ")" [")"] := .fixed (by decide)
  have whole : text .effect "log" args = "__print(" ++ ((assembled "log" args)[0]?.getD "nil" ++ ")") :=
    text_eq_joined rfl (.text "__print(") [.hole '0', .text ")"] (by decide) args
  rw [whole]
  exact (front.append (hole.exp.followed closer (.fixed (by decide)))).as (by decide)

/-- An argument that is scaled to pixels, in front of the others. -/
theorem pixels_spelled {F : Follow} {t u : String} {form : List Symbol} (ht : IsPhrase ordered t)
    (hu : Spelled ordered F u ("*" :: .name :: form)) (hfront : Starts .stop u) :
    Spelled ordered F (t ++ u) (.exp :: form) :=
  hole_operations ["*", .name] ht hu hfront (by decide)

/-- Filling an area: its colour is set first. -/
theorem fill_stats (h : ∀ a ∈ args, a.Phrased ordered) :
    Spelled ordered .stop (text .effect "fill" args) [.stats] := by
  have hole := hole_phrase (assembled_phrase h "fill")
  have whole : text .effect "fill" args =
      "__setcolour(__fillcolours[" ++ ((assembled "fill" args)[4]?.getD "nil" ++ ("]); __fillrect(" ++
        ((assembled "fill" args)[0]?.getD "nil" ++ (" * __pix8scale, " ++
          ((assembled "fill" args)[1]?.getD "nil" ++ (" * __pix8scale, " ++
            ((assembled "fill" args)[2]?.getD "nil" ++ (" * __pix8scale, " ++
              ((assembled "fill" args)[3]?.getD "nil" ++ " * __pix8scale)"))))))))) :=
    text_eq_joined rfl (.text "__setcolour(__fillcolours[") [.hole '4', .text "]); __fillrect(", .hole '0',
      .text " * __pix8scale, ", .hole '1', .text " * __pix8scale, ", .hole '2', .text " * __pix8scale, ", .hole '3',
      .text " * __pix8scale)"] (by decide) args
  have front : Spelled ordered .bracket "__setcolour(__fillcolours[" [.name, "(", .name, "["] :=
    .fixed (by decide)
  have middle : Spelled ordered .any "]); __fillrect(" ["]", ")", ";", .name, "("] := .fixed (by decide)
  have side : Spelled ordered .any " * __pix8scale, " ["*", .name, ","] := .fixed (by decide)
  have last : Spelled ordered .stop " * __pix8scale)" ["*", .name, ")"] := .fixed (by decide)
  have blank : Starts .stop " * __pix8scale, " := .fixed (by decide)
  have height := pixels_spelled (hole 3) last (.fixed (by decide))
  have width := pixels_spelled (hole 2) (side.append height) (blank.append _)
  have y := pixels_spelled (hole 1) (side.append width) (blank.append _)
  have x := pixels_spelled (hole 0) (side.append y) (blank.append _)
  have colour := (hole 4).exp.followed (middle.append x) ((Starts.fixed (by decide)).append _)
  have full := front.followed colour ((hole 4).starts.append _)
  rw [whole]
  exact full.as (by decide)

/-- A call for its effect is made of statements. -/
theorem effect_stats (op : Effect) (h : ∀ a ∈ args, a.Phrased ordered) :
    Spelled ordered .stop (text .effect op.name args) [.stats] := by
  cases op with
  | frame => exact frame_stats h
  | log => exact log_stats h
  | fill => exact fill_stats h
  | _ => exact function_stats (by decide) (by decide) h

end Call
end GameScript
