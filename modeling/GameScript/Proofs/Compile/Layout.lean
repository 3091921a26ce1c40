import GameScript.Compile.Call
import Mathlib.Data.List.Basic

/-! The text of a call as a layout: characters that stand for themselves, and holes that stand for the
arguments. A template is read into its layout; every other call is the name of a function with a hole for each
argument. -/

namespace GameScript
namespace Call

/-- A part of a layout. -/
inductive Piece where
  | char (c : Char)
  | hole (position : Nat)
deriving DecidableEq, Repr

namespace Piece

/-- What a part becomes in a call with these arguments. -/
def render (args : List String) : Piece → List Char
  | char c => [c]
  | hole position => (args[position]?.getD "nil").toList

def position? : Piece → Option Nat
  | char _ => none
  | hole position => some position

end Piece

def render (pieces : List Piece) (args : List String) : String :=
  String.ofList (pieces.flatMap (Piece.render args))

/-- The layout of a template. -/
def pieces : List Char → List Piece
  | [] => []
  | c :: cs =>
      let ds := cs.takeWhile Char.isDigit
      if c = '\x7b' ∧ ds ≠ [] ∧ cs[ds.length]? = some '\x7d' then
        .hole (ds.foldl (fun n d => n * 10 + (d.toNat - '0'.toNat)) 0) :: pieces (cs.drop (ds.length + 1))
      else .char c :: pieces cs
termination_by template => template.length
decreasing_by
  · simp only [List.length_cons, List.length_drop]; omega
  · simp

/-- A template is filled piece by piece, whatever the arguments are. -/
theorem fill_eq_flatMap (template : List Char) (args : List String) :
    fill template args = (pieces template).flatMap (Piece.render args) := by
  fun_induction pieces template with
  | case1 => rw [fill, List.flatMap_nil]
  | case2 c cs ds h ih => rw [fill, if_pos h, ih, List.flatMap_cons, Piece.render]
  | case3 c cs ds h ih => rw [fill, if_neg h, ih, List.flatMap_cons, Piece.render, List.singleton_append]

/-- The layout of a call of a function with so many arguments. -/
def callPieces (callee : String) (count : Nat) : List Piece :=
  (callee ++ "(").toList.map .char ++
    List.intercalate [.char ',', .char ' '] ((List.range count).map fun i => [.hole i]) ++ [.char ')']

/-- The layout of a call: that of its template, or a function with a hole for every argument. -/
def layout (kind : CallKind) (op : String) (count : Nat) : List Piece :=
  match templateTable.lookup (kind, op) with
  | some template => pieces template.toList
  | none => callPieces (callee kind op) count

/-- How many of so many arguments a call has holes for. -/
def holeCount (kind : CallKind) (op : String) (count : Nat) : Nat :=
  match templateTable.lookup (kind, op) with
  | some template => ((pieces template.toList).filterMap Piece.position?).length
  | none => count

theorem flatMap_intercalate {α β : Type} (f : α → List β) (sep : List α) : (xs : List (List α)) →
    (sep.intercalate xs).flatMap f = (sep.flatMap f).intercalate (xs.map fun x => x.flatMap f)
  | [] => rfl
  | [x] => by simp [List.intercalate]
  | x :: y :: xs => by
    rw [List.intercalate_cons_cons, List.flatMap_append, List.flatMap_append,
      flatMap_intercalate f sep (y :: xs)]
    simp only [List.map_cons, List.intercalate_cons_cons]

theorem flatMap_render_char (cs : List Char) (args : List String) :
    (cs.map Piece.char).flatMap (Piece.render args) = cs := by
  induction cs with
  | nil => rfl
  | cons c cs ih => rw [List.map_cons, List.flatMap_cons, ih, Piece.render, List.singleton_append]

/-- The text of a call is its layout with the arguments in the holes. -/
theorem text_eq_render (kind : CallKind) (op : String) (args : List Argument) :
    text kind op args = render (layout kind op (assembled op args).length) (assembled op args) := by
  generalize hargs : assembled op args = texts
  unfold text layout
  rw [hargs]
  cases templateTable.lookup (kind, op) with
  | some template => exact congrArg String.ofList (fill_eq_flatMap template.toList texts)
  | none =>
    have holes : ((List.range texts.length).map fun i => [Piece.hole i]).map
        (fun ps => ps.flatMap (Piece.render texts)) = texts.map String.toList := by
      refine List.ext_getElem (by simp) fun i _ h => ?_
      have hi : i < texts.length := by simpa using h
      simp [Piece.render, hi]
    apply String.toList_injective
    simp only [callPieces, render, String.toList_ofList, List.flatMap_append, flatMap_render_char,
      flatMap_intercalate, holes]
    simp [String.toList_intercalate, Piece.render]

theorem position?_eq_some_iff {p : Piece} {i : Nat} : p.position? = some i ↔ p = .hole i := by
  cases p <;> simp [Piece.position?]

theorem hole_mem_iff {ps : List Piece} {i : Nat} : .hole i ∈ ps ↔ i ∈ ps.filterMap Piece.position? := by
  simp [List.mem_filterMap, position?_eq_some_iff]

/-- A template has one hole for each of the first arguments, in some order. -/
theorem positions_perm : ∀ entry ∈ templateTable,
    ((pieces entry.2.toList).filterMap Piece.position?).Perm
      (List.range ((pieces entry.2.toList).filterMap Piece.position?).length) := by
  decide +kernel

theorem nil_intercalate {α : Type} : (xs : List (List α)) → [].intercalate xs = xs.flatten
  | [] => rfl
  | [x] => by simp [List.intercalate]
  | x :: y :: xs => by
    rw [List.intercalate_cons_cons, nil_intercalate (y :: xs), List.append_nil]
    simp only [List.flatten_cons]

theorem positions_callPieces (callee : String) (count : Nat) :
    (callPieces callee count).filterMap Piece.position? = List.range count := by
  have verbatim : ∀ cs : List Char, (cs.map Piece.char).filterMap Piece.position? = [] := by
    simp [Piece.position?]
  have separator : [Piece.char ',', .char ' '].flatMap (fun p => p.position?.toList) = [] := rfl
  have holes : ((List.range count).map fun i => [Piece.hole i]).map
      (fun ps => ps.flatMap fun p => p.position?.toList) = (List.range count).map fun i => [i] := by
    simp [Piece.position?]
  rw [callPieces, List.filterMap_append, List.filterMap_append, verbatim,
    List.filterMap_eq_flatMap_toList _ (List.intercalate _ _), flatMap_intercalate, separator, holes,
    nil_intercalate, ← List.flatMap_def, List.flatMap_singleton']
  simp [Piece.position?]

/-- A call has holes for its first arguments; without a template, for all of them. -/
theorem hole_mem_layout_iff {kind : CallKind} {op : String} {count i : Nat} :
    .hole i ∈ layout kind op count ↔ i < holeCount kind op count := by
  rw [hole_mem_iff]
  unfold layout holeCount
  cases h : templateTable.lookup (kind, op) with
  | some template =>
    have hmem : ((kind, op), template) ∈ templateTable := by
      obtain ⟨before, after, htable, -⟩ := List.lookup_eq_some_iff.mp h
      rw [htable]
      exact List.mem_append_right _ List.mem_cons_self
    rw [(positions_perm _ hmem).mem_iff, List.mem_range]
  | none => rw [positions_callPieces, List.mem_range]

end Call
end GameScript
