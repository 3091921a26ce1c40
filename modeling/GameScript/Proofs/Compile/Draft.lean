import GameScript.Compile.Command
import GameScript.Proofs.Compile.Layout
import Mathlib.Data.List.Forall2

/-! Texts up to the spelling of compound assignments. A draft is a text in which these assignments are left open;
it is spelled out with all of them written as such, or with all of them as plain assignments that repeat the
target. Two texts that are one draft in the two spellings are so again after whatever the compiler makes of
them: put after one another, into a list, into the holes of a call, or on one line. -/

namespace GameScript

open Lua

/-- The operators that an assignment may be combined with. -/
def arithmetic : List String := ["+", "-", "*", "/"]

/-- A text with its compound assignments left open. -/
inductive Draft where
  | verbatim (t : String)
  | append (d d' : Draft)
  /-- An assignment that combines its target with a value, which may hold such assignments itself. -/
  | compound (target operator : String) (known : operator ∈ arithmetic) (value : Draft)

namespace Draft

/-- The text of a draft, with its compound assignments written as such or not. -/
def spelled (relative : Bool) : Draft → String
  | verbatim t => t
  | append d d' => d.spelled relative ++ d'.spelled relative
  | compound target operator _ value =>
      if relative then target ++ " " ++ operator ++ "= " ++ value.spelled relative
      else target ++ " = " ++ target ++ " " ++ operator ++ " " ++ value.spelled relative

end Draft

theorem Lua.oneLine_append (t u : String) : oneLine (t ++ u) = oneLine t ++ oneLine u := by
  apply String.toList_injective
  simp [oneLine]

theorem Lua.oneLine_eq_self {t : String} (h : '\n' ∉ t.toList) : oneLine t = t := by
  apply String.toList_injective
  rw [oneLine, String.toList_map]
  have each : ∀ c ∈ t.toList, (if c = '\n' then ' ' else c) = c :=
    fun c hc => if_neg fun heq : c = '\n' => h (heq ▸ hc)
  rw [List.map_congr_left each, List.map_id']

namespace Draft

/-- The draft whose texts are those of another one on one line. -/
def oneLine : Draft → Draft
  | verbatim t => verbatim (Lua.oneLine t)
  | append d d' => append d.oneLine d'.oneLine
  | compound target operator known value =>
      compound (Lua.oneLine target) operator known value.oneLine

theorem spelled_oneLine (relative : Bool) :
    (d : Draft) → d.oneLine.spelled relative = Lua.oneLine (d.spelled relative)
  | verbatim _ => rfl
  | append d d' => by
    rw [oneLine, spelled, spelled, oneLine_append, spelled_oneLine relative d,
      spelled_oneLine relative d']
  | compound target operator known value => by
    have operator_eq : Lua.oneLine operator = operator := by
      refine oneLine_eq_self ?_
      revert operator
      decide
    have blank : Lua.oneLine " " = " " := oneLine_eq_self (by decide)
    have relation : Lua.oneLine "= " = "= " := oneLine_eq_self (by decide)
    have plain : Lua.oneLine " = " = " = " := oneLine_eq_self (by decide)
    rw [oneLine, spelled, spelled, spelled_oneLine relative value]
    cases relative <;> simp [oneLine_append, operator_eq, blank, relation, plain]

end Draft

/-- The two texts are one draft, with its compound assignments written as such and without them. -/
def Respelled (t t' : String) : Prop := ∃ d : Draft, d.spelled true = t ∧ d.spelled false = t'

namespace Respelled

variable {t t' u u' : String} {ts ts' : List String}

theorem refl (t : String) : Respelled t t := ⟨.verbatim t, rfl, rfl⟩

theorem append : Respelled t t' → Respelled u u' → Respelled (t ++ u) (t' ++ u')
  | ⟨d, hd, hd'⟩, ⟨e, he, he'⟩ =>
      ⟨.append d e, by rw [Draft.spelled, hd, he], by rw [Draft.spelled, hd', he']⟩

theorem preceded (before : String) (h : Respelled t t') : Respelled (before ++ t) (before ++ t') :=
  (refl before).append h

theorem followed (after : String) (h : Respelled t t') : Respelled (t ++ after) (t' ++ after) :=
  h.append (refl after)

theorem within (before after : String) (h : Respelled t t') :
    Respelled (before ++ t ++ after) (before ++ t' ++ after) := (h.preceded before).followed after

theorem oneLine : Respelled t t' → Respelled (oneLine t) (oneLine t')
  | ⟨d, hd, hd'⟩ => ⟨d.oneLine, by rw [d.spelled_oneLine, hd], by rw [d.spelled_oneLine, hd']⟩

theorem intercalate (separator : String) (h : List.Forall₂ Respelled ts ts') :
    Respelled (separator.intercalate ts) (separator.intercalate ts') := by
  induction h with
  | nil => exact refl _
  | cons first rest ih =>
    cases rest with
    | nil => simpa only [String.intercalate_singleton] using first
    | cons _ _ =>
      rw [String.intercalate_cons_cons, String.intercalate_cons_cons]
      exact (first.followed separator).append ih

theorem concatenation (h : List.Forall₂ Respelled ts ts') :
    Respelled (Compile.concatenation ts) (Compile.concatenation ts') := by
  cases h with
  | nil => exact refl _
  | cons first rest => exact intercalate " .. " (.cons first rest)

end Respelled

/-! ### Calls -/

namespace Argument

/-- The two arguments are of one form, and their texts are those of drafts. -/
inductive Respelled : Argument → Argument → Prop where
  | pair {x x' y y' : String} : GameScript.Respelled x x' → GameScript.Respelled y y' →
      Respelled (pair x y) (pair x' y')
  | rect {parts parts' : List String} : List.Forall₂ GameScript.Respelled parts parts' →
      Respelled (rect parts) (rect parts')
  | callback {t t' : String} : GameScript.Respelled t t' → Respelled (callback t) (callback t')
  | plain {t t' : String} : GameScript.Respelled t t' → Respelled (plain t) (plain t')

end Argument

namespace Call

variable {args args' : List Argument}

/-- Two fillings are of one slot, and their texts are those of a draft. -/
def Fills (p p' : Slot × String) : Prop := p.1 = p'.1 ∧ Respelled p.2 p'.2

theorem zip_fills (slots : List Slot) {parts parts' : List String}
    (h : List.Forall₂ Respelled parts parts') :
    List.Forall₂ Fills (slots.zip parts) (slots.zip parts') := by
  induction h generalizing slots with
  | nil => simp
  | cons first _ ih =>
    cases slots with
    | nil => exact .nil
    | cons slot slots => exact .cons ⟨rfl, first⟩ (ih slots)

theorem fills_respelled {arg arg' : Argument} (h : arg.Respelled arg') :
    List.Forall₂ Fills arg.fills arg'.fills := by
  cases h with
  | pair hx hy => exact .cons ⟨rfl, hx⟩ (.cons ⟨rfl, hy⟩ .nil)
  | rect h => exact zip_fills _ h
  | callback h => exact .cons ⟨rfl, h⟩ .nil
  | plain _ => exact .nil

theorem lookup_respelled {fills fills' : List (Slot × String)} (h : List.Forall₂ Fills fills fills')
    (slot : Slot) (otherwise : String) : Respelled ((fills.lookup slot).getD otherwise)
      ((fills'.lookup slot).getD otherwise) := by
  induction h with
  | nil => exact .refl _
  | @cons p p' _ _ first _ ih =>
    obtain ⟨hslot, htext⟩ := first
    rw [List.lookup_cons, List.lookup_cons, ← hslot]
    cases slot == p.1 with
    | true => exact htext
    | false => exact ih

theorem slotText_respelled (h : List.Forall₂ Argument.Respelled args args') (slot : Slot) :
    Respelled (slotText args slot) (slotText args' slot) := by
  have fills : List.Forall₂ Fills (args.flatMap Argument.fills) (args'.flatMap Argument.fills) :=
    List.rel_flatMap h fun _ _ => fills_respelled
  exact lookup_respelled (List.forall₂_reverse_iff.mpr fills) slot slot.unfilled

theorem assembled_respelled (op : String) (h : List.Forall₂ Argument.Respelled args args') :
    List.Forall₂ Respelled (assembled op args) (assembled op args') := by
  have slots : List.Forall₂ Respelled ((slots op).map (slotText args)) ((slots op).map (slotText args')) :=
    List.forall₂_map_left_iff.mpr <| List.forall₂_map_right_iff.mpr <|
      List.forall₂_same.mpr fun slot _ => slotText_respelled h slot
  have rest : List.Forall₂ Respelled (args.filterMap Argument.plain?) (args'.filterMap Argument.plain?) := by
    refine List.rel_filterMap (fun arg arg' harg => ?_) h
    cases harg with
    | plain h => exact .some h
    | _ => exact .none
  exact List.rel_append slots rest

theorem hole_respelled {ts ts' : List String} (h : List.Forall₂ Respelled ts ts') (i : Nat) :
    Respelled (ts[i]?.getD "nil") (ts'[i]?.getD "nil") := by
  induction h generalizing i with
  | nil => exact .refl _
  | cons first _ ih =>
    cases i with
    | zero => exact first
    | succ i => exact ih i

theorem render_respelled {ts ts' : List String} (h : List.Forall₂ Respelled ts ts') :
    (ps : List Piece) → Respelled (render ps ts) (render ps ts')
  | [] => .refl _
  | p :: ps => by
    have split : ∀ ts, render (p :: ps) ts = String.ofList (p.render ts) ++ render ps ts :=
      fun ts => by rw [render, List.flatMap_cons, String.ofList_append, render]
    rw [split, split]
    refine Respelled.append ?_ (render_respelled h ps)
    cases p with
    | char c => exact .refl _
    | hole i =>
      rw [Piece.render, Piece.render, String.ofList_toList, String.ofList_toList]
      exact hole_respelled h i

/-- The arguments of a call only stand in its holes. -/
theorem text_respelled (kind : CallKind) (op : String) (h : List.Forall₂ Argument.Respelled args args') :
    Respelled (text kind op args) (text kind op args') := by
  have assembled := assembled_respelled op h
  rw [text_eq_render, text_eq_render, ← assembled.length_eq]
  exact render_respelled assembled _

end Call
end GameScript
