import GameScript.Compile.Call
import Mathlib.Data.List.Induction
import Mathlib.Data.List.Infix
import Mathlib.Data.List.TakeWhile
import Mathlib.Data.Nat.Digits.Defs

/-! Templates. A template splits in exactly one way into texts that stand for themselves and placeholders, and
filling it puts arguments for the placeholders and leaves the rest as it is; what is put in is not split again.
The same text comes out of a scan that goes from one opening brace to the next, and each round of it takes at
least one opening brace off what is left. -/

namespace GameScript
namespace Call

/-- What stands between the braces of a placeholder. -/
def IsNumeral (ds : List Char) : Prop := ds ≠ [] ∧ ∀ d ∈ ds, d.isDigit = true

def placeholder (ds : List Char) : List Char := '\x7b' :: (ds ++ ['\x7d'])

/-- The number that digits denote in decimal. -/
def numeral (ds : List Char) : Nat := Nat.ofDigits 10 (ds.map fun d => d.toNat - '0'.toNat).reverse

/-- No placeholder is in the text. -/
def IsPlain (cs : List Char) : Prop := ∀ ds, IsNumeral ds → ¬ placeholder ds <:+: cs

/-- A part of a template: a text that stands for itself, or a placeholder. -/
inductive Chunk where
  | text (cs : List Char)
  | hole (digits : List Char)
deriving DecidableEq, Repr

namespace Chunk

def filled (args : List String) : Chunk → List Char
  | text cs => cs
  | hole ds => (args[numeral ds]?.getD "nil").toList

def isText : Chunk → Bool
  | text _ => true
  | hole _ => false

end Chunk

/-- A template is made of some parts. Texts are as long as they can be: they are not empty, and none follows
another one. -/
inductive Splits : List Char → List Chunk → Prop where
  | done : Splits [] []
  | hole {ds rest : List Char} {chunks : List Chunk} : IsNumeral ds → Splits rest chunks →
      Splits (placeholder ds ++ rest) (.hole ds :: chunks)
  | text {cs rest : List Char} {chunks : List Chunk} : cs ≠ [] → IsPlain cs →
      (∀ chunk ∈ chunks.head?, chunk.isText = false) → Splits rest chunks →
      Splits (cs ++ rest) (.text cs :: chunks)

/-! ### Placeholders -/

theorem foldl_digits (ds : List Char) :
    ds.foldl (fun n d => n * 10 + (d.toNat - '0'.toNat)) 0 = numeral ds := by
  induction ds using List.reverseRecOn with
  | nil => rfl
  | append_singleton ds d ih =>
    rw [List.foldl_append, List.foldl_cons, List.foldl_nil, ih, numeral, numeral, List.map_append,
      List.reverse_append, List.map_singleton, List.reverse_singleton, List.singleton_append,
      Nat.ofDigits_cons, Nat.mul_comm, Nat.add_comm]

theorem takeWhile_numeral {ds : List Char} (h : IsNumeral ds) (rest : List Char) :
    (ds ++ '\x7d' :: rest).takeWhile Char.isDigit = ds := by
  rw [List.takeWhile_append_of_pos h.2, List.takeWhile_cons_of_neg (by decide), List.append_nil]

theorem placeholder_append (ds rest : List Char) :
    placeholder ds ++ rest = '\x7b' :: (ds ++ '\x7d' :: rest) := by
  rw [placeholder, List.cons_append, List.append_assoc, List.singleton_append]

/-- How a placeholder is told from other text: by the digits behind the brace and by what stands behind them. -/
def Opens (c : Char) (cs : List Char) : Prop :=
  c = '\x7b' ∧ cs.takeWhile Char.isDigit ≠ [] ∧ cs[(cs.takeWhile Char.isDigit).length]? = some '\x7d'

theorem opens_placeholder {ds : List Char} (h : IsNumeral ds) (rest : List Char) :
    Opens '\x7b' (ds ++ '\x7d' :: rest) := by
  rw [Opens, takeWhile_numeral h, List.getElem?_append_right (Nat.le_refl _), Nat.sub_self]
  exact ⟨rfl, h.1, rfl⟩

/-- The text from a placeholder on, taken apart. -/
theorem Opens.eq_placeholder {c : Char} {cs : List Char} (h : Opens c cs) :
    IsNumeral (cs.takeWhile Char.isDigit) ∧ c :: cs =
      placeholder (cs.takeWhile Char.isDigit) ++ cs.drop ((cs.takeWhile Char.isDigit).length + 1) := by
  obtain ⟨rfl, hne, hclose⟩ := h
  refine ⟨⟨hne, fun d hd => List.mem_takeWhile_imp hd⟩, ?_⟩
  obtain ⟨hlt, hclose⟩ := List.getElem?_eq_some_iff.mp hclose
  have digits : cs.take (cs.takeWhile Char.isDigit).length = cs.takeWhile Char.isDigit :=
    (List.prefix_iff_eq_take.mp (List.takeWhile_prefix _)).symm
  calc '\x7b' :: cs
      = '\x7b' :: (cs.take (cs.takeWhile Char.isDigit).length ++
          cs.drop (cs.takeWhile Char.isDigit).length) := by rw [List.take_append_drop]
    _ = _ := by rw [digits, List.drop_eq_getElem_cons hlt, hclose, placeholder_append]

theorem opens_iff {c : Char} {cs : List Char} :
    Opens c cs ↔ ∃ ds, IsNumeral ds ∧ placeholder ds <+: c :: cs := by
  constructor
  · intro h
    obtain ⟨hds, heq⟩ := h.eq_placeholder
    exact ⟨_, hds, _, heq.symm⟩
  · rintro ⟨ds, hds, rest, heq⟩
    rw [placeholder_append] at heq
    obtain ⟨rfl, rfl⟩ := List.cons.inj heq
    exact opens_placeholder hds rest

theorem fill_of_opens {c : Char} {cs : List Char} (h : Opens c cs) (args : List String) :
    fill (c :: cs) args = (args[numeral (cs.takeWhile Char.isDigit)]?.getD "nil").toList ++
      fill (cs.drop ((cs.takeWhile Char.isDigit).length + 1)) args := by
  rw [fill, ← foldl_digits]
  exact if_pos h

theorem fill_of_not_opens {c : Char} {cs : List Char} (h : ¬ Opens c cs) (args : List String) :
    fill (c :: cs) args = c :: fill cs args := by
  rw [fill]
  exact if_neg h

theorem fill_placeholder {ds : List Char} (h : IsNumeral ds) (rest : List Char) (args : List String) :
    fill (placeholder ds ++ rest) args = (args[numeral ds]?.getD "nil").toList ++ fill rest args := by
  rw [placeholder_append, fill_of_opens (opens_placeholder h rest), takeWhile_numeral h, ← List.drop_drop,
    List.drop_left]
  rfl

/-- Where there is no opening brace, a template is filled by itself. -/
theorem fill_before (args : List String) (rest : List Char) : {cs : List Char} → '\x7b' ∉ cs →
    fill (cs ++ rest) args = cs ++ fill rest args
  | [], _ => rfl
  | c :: cs, h => by
    obtain ⟨hc, hcs⟩ := not_or.mp (fun hmem => h (List.mem_cons.mpr hmem))
    rw [List.cons_append, fill_of_not_opens (fun hopen => hc hopen.1.symm), fill_before args rest hcs,
      List.cons_append]

/-! ### The parts of a template -/

/-- A character in front of some parts. -/
def Chunk.prepend (c : Char) : List Chunk → List Chunk
  | .text cs :: chunks => .text (c :: cs) :: chunks
  | chunks => .text [c] :: chunks

instance (c : Char) (cs : List Char) : Decidable (Opens c cs) := inferInstanceAs (Decidable (_ ∧ _))

/-- The parts of a template, read from its end. -/
def chunks : List Char → List Chunk
  | [] => []
  | c :: cs =>
      let ds := cs.takeWhile Char.isDigit
      if Opens c cs then .hole ds :: chunks (cs.drop (ds.length + 1)) else Chunk.prepend c (chunks cs)
termination_by template => template.length
decreasing_by
  · simp only [List.length_cons, List.length_drop]; omega
  · simp

theorem Chunk.filled_prepend (args : List String) (c : Char) (chunks : List Chunk) :
    (Chunk.prepend c chunks).flatMap (Chunk.filled args) = c :: chunks.flatMap (Chunk.filled args) := by
  cases chunks with
  | nil => rfl
  | cons chunk chunks => cases chunk <;> rfl

/-- A template is filled part by part, whatever the arguments are. -/
theorem fill_eq_chunks (template : List Char) (args : List String) :
    fill template args = (chunks template).flatMap (Chunk.filled args) := by
  fun_induction chunks template with
  | case1 => rw [fill, List.flatMap_nil]
  | case2 c cs ds h ih => rw [fill_of_opens h, ih, List.flatMap_cons, Chunk.filled]
  | case3 c cs h ih => rw [fill_of_not_opens h, ih, Chunk.filled_prepend]

theorem chunks_placeholder {ds : List Char} (h : IsNumeral ds) (rest : List Char) :
    chunks (placeholder ds ++ rest) = .hole ds :: chunks rest := by
  rw [placeholder_append, chunks, if_pos (opens_placeholder h rest), takeWhile_numeral h,
    ← List.drop_drop, List.drop_left]
  rfl

/-- A part that is no text starts with an opening brace. -/
theorem Splits.head {rest : List Char} {chunks : List Chunk} (h : Splits rest chunks)
    (hhead : ∀ chunk ∈ chunks.head?, chunk.isText = false) : ∀ c ∈ rest.head?, c = '\x7b' := by
  cases h with
  | done => intro c hc; cases hc
  | hole _ _ => rintro c ⟨⟩; rfl
  | text _ _ _ _ => cases hhead _ rfl

/-- A placeholder that starts in a text is in the text, when an opening brace or nothing comes behind: there is
no other brace in it than the first one and the last one. -/
theorem prefix_of_prefix_append {ds cs rest : List Char} (hds : IsNumeral ds) (hcs : cs ≠ [])
    (hrest : ∀ c ∈ rest.head?, c = '\x7b') (h : placeholder ds <+: cs ++ rest) : placeholder ds <+: cs := by
  obtain ⟨after, heq⟩ := h
  rcases List.append_eq_append_iff.mp heq with ⟨a, hcs', -⟩ | ⟨a, hds', hafter⟩
  · exact ⟨a, hcs'.symm⟩
  · cases a with
    | nil =>
      rw [List.append_nil] at hds'
      exact ⟨[], by rw [List.append_nil, hds']⟩
    | cons b a =>
      obtain rfl : b = '\x7b' := hrest b (by rw [hafter]; rfl)
      cases cs with
      | nil => exact absurd rfl hcs
      | cons c cs =>
        have inner : '\x7b' ∈ ds ++ ['\x7d'] := by
          rw [(List.cons.inj hds').2]
          exact List.mem_append_right _ List.mem_cons_self
        rcases List.mem_append.mp inner with hmem | hmem
        · exact absurd (hds.2 _ hmem) (by decide)
        · exact absurd (List.mem_singleton.mp hmem) (by decide)

/-- By recursion on the text, none of whose characters opens a placeholder. -/
theorem chunks_plain {rest : List Char} {parts : List Chunk} (hrest : Splits rest parts)
    (hhead : ∀ chunk ∈ parts.head?, chunk.isText = false) (ih : chunks rest = parts) :
    {cs : List Char} → cs ≠ [] → IsPlain cs → chunks (cs ++ rest) = .text cs :: parts
  | c :: cs, _, hplain => by
    have closed : ¬ Opens c (cs ++ rest) := by
      rintro h
      obtain ⟨ds, hds, hprefix⟩ := opens_iff.mp h
      have inside := prefix_of_prefix_append hds (List.cons_ne_nil c cs) (hrest.head hhead) hprefix
      exact hplain ds hds inside.isInfix
    rw [List.cons_append, chunks, if_neg closed]
    cases cs with
    | nil =>
      rw [List.nil_append, ih]
      cases parts with
      | nil => rfl
      | cons chunk parts =>
        cases chunk with
        | text _ => cases hhead _ rfl
        | hole _ => rfl
    | cons c' cs =>
      have tail : IsPlain (c' :: cs) := fun ds hds hinfix => hplain ds hds (List.infix_cons hinfix)
      rw [chunks_plain hrest hhead ih (List.cons_ne_nil c' cs) tail]
      rfl

theorem Splits.eq_chunks {template : List Char} {parts : List Chunk} (h : Splits template parts) :
    chunks template = parts := by
  induction h with
  | done => rw [chunks]
  | hole hds _ ih => rw [chunks_placeholder hds, ih]
  | text hne hplain hhead hrest ih => exact chunks_plain hrest hhead ih hne hplain

/-- In front of a text that opens no placeholder with it, a character is part of the text. -/
theorem Splits.prepend {c : Char} {cs : List Char} {parts : List Chunk} (h : Splits cs parts)
    (hc : ¬ Opens c cs) : Splits (c :: cs) (Chunk.prepend c parts) := by
  have plain : ∀ text rest, cs = text ++ rest → IsPlain text → IsPlain (c :: text) := by
    rintro text rest rfl htext ds hds hinfix
    rcases List.infix_cons_iff.mp hinfix with hprefix | hinfix
    · refine hc (opens_iff.mpr ⟨ds, hds, hprefix.trans ?_⟩)
      exact List.prefix_append (c :: text) rest
    · exact htext ds hds hinfix
  have alone : IsPlain [c] := plain [] cs rfl fun ds _ hinfix => by
    cases List.infix_nil.mp hinfix
  cases h with
  | done => exact .text (List.cons_ne_nil c []) alone (fun _ hmem => nomatch hmem) .done
  | hole hds hrest =>
    refine .text (List.cons_ne_nil c []) alone ?_ (.hole hds hrest)
    rintro chunk ⟨⟩
    rfl
  | text hne htext hhead hrest =>
    exact .text (List.cons_ne_nil c _) (plain _ _ rfl htext) hhead hrest

theorem splits_chunks (template : List Char) : Splits template (chunks template) := by
  fun_induction chunks template with
  | case1 => exact .done
  | case2 c cs ds h ih =>
    obtain ⟨hds, heq⟩ := h.eq_placeholder
    rw [heq]
    exact .hole hds ih
  | case3 c cs h ih => exact ih.prepend h

/-- A template has parts, and no others. -/
theorem splits_iff {template : List Char} {parts : List Chunk} :
    Splits template parts ↔ chunks template = parts :=
  ⟨Splits.eq_chunks, fun h => h ▸ splits_chunks template⟩

/-! ### Going from brace to brace -/

/-- A scan of a template: what is written, and what is left of the template. -/
structure Scan where
  written : List Char
  rest : List Char
deriving DecidableEq, Repr

namespace Scan

/-- One round, if an opening brace is left: all before it is written, and then the argument for the placeholder
that starts there, or the brace alone. -/
def next? (args : List String) (s : Scan) : Option Scan :=
  match s.rest.dropWhile (· ≠ '\x7b') with
  | [] => none
  | c :: after =>
      let ds := after.takeWhile Char.isDigit
      let written := s.written ++ s.rest.takeWhile (· ≠ '\x7b')
      if Opens c after then
        some ⟨written ++ (args[numeral ds]?.getD "nil").toList, after.drop (ds.length + 1)⟩
      else some ⟨written ++ [c], after⟩

/-- At most so many rounds, and what is written at the end if they are enough. -/
def run? (args : List String) : Nat → Scan → Option (List Char)
  | 0, _ => none
  | rounds + 1, s =>
      match s.next? args with
      | none => some (s.written ++ s.rest)
      | some s => run? args rounds s

/-- What is written in the end, and how many opening braces are left. -/
def outcome (args : List String) (s : Scan) : List Char := s.written ++ fill s.rest args

def braces (s : Scan) : Nat := s.rest.count '\x7b'

variable {args : List String} {s s' : Scan}

theorem eq_of_dropWhile {rest after : List Char} {c : Char} (h : rest.dropWhile (· ≠ '\x7b') = c :: after) :
    c = '\x7b' ∧ rest = rest.takeWhile (· ≠ '\x7b') ++ '\x7b' :: after := by
  have hc := List.head?_dropWhile_not (fun c : Char => decide (c ≠ '\x7b')) rest
  rw [h] at hc
  obtain rfl : c = '\x7b' := by simpa using hc
  refine ⟨rfl, ?_⟩
  rw [← h, List.takeWhile_append_dropWhile]

theorem not_mem_takeWhile (rest : List Char) : '\x7b' ∉ rest.takeWhile (· ≠ '\x7b') := by
  intro h
  have := List.mem_takeWhile_imp h
  simp at this

/-- A round keeps what will be written in the end, and takes an opening brace off what is left. -/
theorem next?_eq_some (h : s.next? args = some s') :
    s'.outcome args = s.outcome args ∧ s'.braces < s.braces := by
  rw [next?] at h
  split at h
  · cases h
  · next c after hdrop =>
    obtain ⟨rfl, hrest⟩ := eq_of_dropWhile hdrop
    have filled : fill s.rest args =
        s.rest.takeWhile (· ≠ '\x7b') ++ fill ('\x7b' :: after) args := by
      conv_lhs => rw [hrest]
      exact fill_before args _ (not_mem_takeWhile s.rest)
    have counted : s.braces = after.count '\x7b' + 1 := by
      rw [braces, hrest, List.count_append, List.count_eq_zero.mpr (not_mem_takeWhile s.rest),
        List.count_cons_self, Nat.zero_add]
    split_ifs at h with hopen
    · obtain rfl := Option.some.inj h
      refine ⟨?_, ?_⟩
      · rw [outcome, outcome, filled, fill_of_opens hopen]
        simp only [List.append_assoc]
      · rw [counted]
        exact Nat.lt_succ_of_le ((List.drop_sublist _ _).count_le _)
    · obtain rfl := Option.some.inj h
      refine ⟨?_, ?_⟩
      · rw [outcome, outcome, filled, fill_of_not_opens hopen]
        simp only [List.append_assoc, List.singleton_append]
      · rw [counted]
        exact Nat.lt_succ_self _

/-- There is no round left when no opening brace is left, and the rest stands for itself. -/
theorem next?_eq_none (h : s.next? args = none) : s.outcome args = s.written ++ s.rest := by
  rw [next?] at h
  split at h
  · next hdrop =>
    have all : s.rest = s.rest.takeWhile (· ≠ '\x7b') := by
      conv_lhs => rw [← List.takeWhile_append_dropWhile (p := (· ≠ '\x7b')) (l := s.rest), hdrop]
      exact List.append_nil _
    have plain : '\x7b' ∉ s.rest := all ▸ not_mem_takeWhile s.rest
    have filled := fill_before args [] plain
    rw [List.append_nil, fill, List.append_nil] at filled
    rw [outcome, filled]
  · split_ifs at h

/-- By induction on the rounds: one for every opening brace and one more are enough. -/
theorem run?_eq_some {rounds : Nat} (h : s.braces < rounds) : s.run? args rounds = some (s.outcome args) := by
  induction rounds generalizing s with
  | zero => cases h
  | succ rounds ih =>
    rw [run?]
    cases hnext : s.next? args with
    | none => rw [next?_eq_none hnext]
    | some s' =>
      obtain ⟨kept, fewer⟩ := next?_eq_some hnext
      rw [← kept]
      exact ih (by omega)

end Scan

/-- Filling a template is simultaneous. The template has parts, and no others; what it is filled with stands in
the place of the placeholders, the rest stays. A placeholder whose number is out of the range of positions is nil.
The scan from brace to brace ends after at most one round for every opening brace of the template, with the same
text. -/
theorem fill_simultaneous (template : List Char) (args : List String) :
    ∃ parts, (∀ parts', Splits template parts' ↔ parts = parts') ∧
      fill template args = parts.flatMap (Chunk.filled args) ∧
      (args.length ≤ 2 ^ 64 → ∀ ds, .hole ds ∈ parts → 2 ^ 64 ≤ numeral ds →
        (Chunk.hole ds).filled args = "nil".toList) ∧
      ∀ rounds, template.count '\x7b' < rounds →
        Scan.run? args rounds ⟨[], template⟩ = some (fill template args) := by
  refine ⟨chunks template, fun _ => splits_iff, fill_eq_chunks template args, ?_, fun rounds hrounds => ?_⟩
  · intro hlength ds _ hlarge
    rw [Chunk.filled, List.getElem?_eq_none (Nat.le_trans hlength hlarge), Option.getD_none]
  · exact Scan.run?_eq_some (s := ⟨[], template⟩) hrounds

end Call
end GameScript
