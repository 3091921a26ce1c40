import GameScript.Proofs.Compile.Places
import Mathlib.Data.List.Nodup

/-! What stands in the slots of a call. A slot is filled by the last argument that has something for it, else by
the parameter of the handler that it is named after, else by nil; plain arguments stand behind the slots in their
own order, whatever groups are among them. The main statement gives the text of every call that compiles. -/

namespace GameScript

/-- The parameter of a handler that a slot is named after. -/
def Slot.parameter? : Slot → Option String
  | .self => some "__self"
  | .actor => some "__actor"
  | .event => some "event"
  | .evname => some "__evname"
  | .x | .y | .w | .h | .block | .len | .lines => none

theorem Slot.unfilled_eq (slot : Slot) : slot.unfilled = slot.parameter?.getD "nil" := by
  cases slot <;> rfl

example : ", ".intercalate ([Slot.self, .actor, .event, .evname].filterMap Slot.parameter?) =
    Compile.handlerParameters := rfl

/-- An argument that is no group. -/
def Expr.isPlain : Expr → Bool
  | .pair _ _ | .rect _ | .block _ => false
  | _ => true

theorem Expr.supplies_of_isPlain {e : Expr} (h : e.isPlain = true) : e.supplies = [(none, e)] := by
  cases e with
  | pair _ _ | rect _ | block _ => cases h
  | _ => rfl

theorem Expr.exists_slot_of_not_isPlain {e : Expr} (h : e.isPlain = false) :
    ∀ p ∈ e.supplies, p.1.isSome = true := by
  cases e with
  | pair _ _ | block _ => simp [Expr.supplies]
  | rect parts =>
    intro p hp
    obtain ⟨_, _, rfl⟩ := List.mem_map.mp hp
    rfl
  | _ => cases h

theorem Expr.mem_of_mem_supplies {e part : Expr} {slot : Slot} (h : (some slot, part) ∈ e.supplies) :
    slot ∈ [Slot.x, .y, .w, .h, .block] := by
  cases e with
  | rect parts =>
    obtain ⟨p, hp, heq⟩ := List.mem_map.mp h
    obtain rfl := Option.some.inj (congrArg Prod.fst heq)
    exact List.mem_append_left [.block] (List.of_mem_zip hp).1
  | pair _ _ | block _ =>
    simp only [supplies, List.mem_cons, Prod.mk.injEq, Option.some.injEq, List.not_mem_nil] at h
    grind
  | _ => cases List.mem_singleton.mp h

/-- An argument supplies no slot twice. -/
theorem Expr.nodup_supplies (e : Expr) : (e.supplies.map Prod.fst).Nodup := by
  cases e with
  | rect parts =>
    have slots : (Expr.rect parts).supplies.map Prod.fst =
        ((Argument.rectSlots.zip parts).map Prod.fst).map some := by
      simp [Expr.supplies]
    rw [slots]
    refine List.Nodup.map (fun _ _ => Option.some.inj) ?_
    rw [List.zip_eq_zip_take_min, List.map_fst_zip (by simp)]
    exact List.Nodup.sublist (List.take_sublist _ _) (by decide)
  | pair x y =>
    show [some Slot.x, some Slot.y].Nodup
    decide
  | _ => exact List.nodup_singleton _

/-- The plain arguments of a call are what is supplied for no slot. -/
theorem plain_suppliedBy (args : List Expr) :
    ((suppliedBy args).filter fun p => p.1 == none) = (args.filter Expr.isPlain).map fun e => (none, e) := by
  induction args with
  | nil => rfl
  | cons e args ih =>
    rw [suppliedBy, List.flatMap_cons, List.filter_append, ← suppliedBy, ih, List.filter_cons]
    cases h : e.isPlain with
    | true =>
      rw [Expr.supplies_of_isPlain h]
      rfl
    | false =>
      have none : e.supplies.filter (fun p => p.1 == none) = [] := by
        refine List.filter_eq_nil_iff.mpr fun p hp hnone => ?_
        have := Expr.exists_slot_of_not_isPlain h p hp
        rw [eq_of_beq hnone] at this
        cases this
      rw [none]
      rfl

namespace Compile

/-- What stands in a slot of a call with these arguments. -/
inductive Stands (s : Scope) (args : List Expr) (slot : Slot) : String → Prop where
  /-- The text of the last argument that has one for the slot. -/
  | given {before after : List Expr} {arg e : Expr} {t : String} : args = before ++ arg :: after →
      (some slot, e) ∈ arg.supplies → (∀ later ∈ after, ∀ e, (some slot, e) ∉ later.supplies) →
      (expr s e).result = .ok t → Stands s args slot t
  | unfilled : (∀ arg ∈ args, ∀ e, (some slot, e) ∉ arg.supplies) →
      Stands s args slot (slot.parameter?.getD "nil")

/-- The last of the values of a list that have a property. -/
theorem exists_last {α : Type} {p : α → Prop} : {l : List α} → (∃ a ∈ l, p a) →
    ∃ before a after, l = before ++ a :: after ∧ p a ∧ ∀ b ∈ after, ¬ p b
  | a :: l, h => by
    by_cases hl : ∃ b ∈ l, p b
    · obtain ⟨before, b, after, rfl, hb, hafter⟩ := exists_last hl
      exact ⟨a :: before, b, after, rfl, hb, hafter⟩
    · obtain ⟨b, hb, hpb⟩ := h
      rcases List.mem_cons.mp hb with rfl | hb
      · exact ⟨[], b, l, rfl, hpb, fun c hc hpc => hl ⟨c, hc, hpc⟩⟩
      · exact absurd ⟨b, hb, hpb⟩ hl

variable {s : Scope} {args : List Expr} {compiled : List Argument}

/-- What is supplied last for a slot is what stands in it. -/
theorem Compiled.slotText_eq {bodies : BodyCompiler} {slot : Slot} {e : Expr}
    {before after : List (Option Slot × Expr)} (h : Compiled bodies s args compiled)
    (hsupplied : suppliedBy args = before ++ (some slot, e) :: after)
    (hafter : some slot ∉ after.map Prod.fst) :
    (expression bodies s e).result = .ok (Call.slotText compiled slot) := by
  obtain ⟨t, ht, hcompiles⟩ := h.text before.length (some slot) e (by simp [hsupplied])
  have kinds := h.kinds
  rw [hsupplied, List.map_append, List.map_cons] at kinds
  obtain ⟨front, back, hentries, hfront, hback⟩ := List.map_eq_append_iff.mp kinds
  obtain ⟨entry, behind, rfl, -, hbehind⟩ := List.map_eq_cons_iff.mp hback
  have length : front.length = before.length := by simpa using congrArg List.length hfront
  rw [hentries, ← length, List.getElem?_append_right (Nat.le_refl _), Nat.sub_self] at ht
  obtain rfl := Option.some.inj ht
  rw [Call.slotText_eq hentries (by rw [hbehind]; exact hafter)]
  exact hcompiles

/-- A slot for which nothing is supplied is unfilled. -/
theorem Compiled.slotText_unfilled {bodies : BodyCompiler} {slot : Slot} (h : Compiled bodies s args compiled)
    (hnone : some slot ∉ (suppliedBy args).map Prod.fst) : Call.slotText compiled slot = slot.unfilled := by
  rw [← h.kinds] at hnone
  have missing : ((compiled.flatMap Argument.fills).reverse).lookup slot = none := by
    rw [List.lookup_eq_none_iff, Call.flatMap_fills]
    intro p hp
    obtain ⟨⟨kind, t⟩, hq, hfill⟩ := List.mem_filterMap.mp (List.mem_reverse.mp hp)
    obtain ⟨slot', rfl, rfl⟩ := Option.map_eq_some_iff.mp hfill
    refine bne_iff_ne.mpr fun hslot => hnone (List.mem_map.mpr ⟨_, hq, ?_⟩)
    exact congrArg some hslot.symm
  rw [Call.slotText, missing, Option.getD_none]

/-- No argument supplies a length or a number of lines, so a label never has them. -/
theorem Compiled.len_lines {bodies : BodyCompiler} (h : Compiled bodies s args compiled) :
    Call.slotText compiled .len = "nil" ∧ Call.slotText compiled .lines = "nil" := by
  have none : ∀ slot, slot ∉ [Slot.x, .y, .w, .h, .block] →
      some slot ∉ (suppliedBy args).map Prod.fst := by
    intro slot hslot hmem
    obtain ⟨⟨_, e⟩, hp, rfl⟩ := List.mem_map.mp hmem
    obtain ⟨arg, -, harg⟩ := List.mem_flatMap.mp hp
    exact hslot (arg.mem_of_mem_supplies harg)
  exact ⟨h.slotText_unfilled (none _ (by decide)), h.slotText_unfilled (none _ (by decide))⟩

theorem Compiled.stands (h : Compiled body s args compiled) (slot : Slot) :
    Stands s args slot (Call.slotText compiled slot) := by
  by_cases hgiven : ∃ arg ∈ args, ∃ e, (some slot, e) ∈ arg.supplies
  · obtain ⟨before, arg, after, rfl, ⟨e, he⟩, hafter⟩ := exists_last hgiven
    have later : ∀ a ∈ after, ∀ e, (some slot, e) ∉ a.supplies := fun a ha e he => hafter a ha ⟨e, he⟩
    obtain ⟨front, back, hsupplies⟩ := List.append_of_mem he
    have supplied : suppliedBy (before ++ arg :: after) =
        (suppliedBy before ++ front) ++ (some slot, e) :: (back ++ suppliedBy after) := by
      simp only [suppliedBy, List.flatMap_append, List.flatMap_cons, hsupplies, List.append_assoc,
        List.cons_append]
    have last : some slot ∉ (back ++ suppliedBy after).map Prod.fst := by
      have once := arg.nodup_supplies
      rw [hsupplies, List.map_append, List.map_cons] at once
      rw [List.map_append, List.mem_append]
      rintro (hmem | hmem)
      · exact (List.nodup_cons.mp (List.nodup_append.mp once).2.1).1 hmem
      · obtain ⟨⟨_, e'⟩, hp, rfl⟩ := List.mem_map.mp hmem
        obtain ⟨a, ha, hp⟩ := List.mem_flatMap.mp hp
        exact later a ha e' hp
    exact .given rfl he later (h.slotText_eq supplied last)
  · have none : ∀ arg ∈ args, ∀ e, (some slot, e) ∉ arg.supplies :=
      fun arg harg e he => hgiven ⟨arg, harg, e, he⟩
    rw [h.slotText_unfilled, slot.unfilled_eq]
    · exact .unfilled none
    · intro hmem
      obtain ⟨⟨_, e⟩, hp, rfl⟩ := List.mem_map.mp hmem
      obtain ⟨arg, harg, hp⟩ := List.mem_flatMap.mp hp
      exact none arg harg e hp

/-- The plain arguments are compiled in order, and no group gets between them. -/
theorem plain_compiles {bodies : BodyCompiler} (h : (arguments bodies s args).result = .ok compiled) :
    List.Forall₂ (fun e t => (expression bodies s e).result = .ok t) (args.filter Expr.isPlain)
      (compiled.filterMap Argument.plain?) := by
  obtain ⟨all, -⟩ := arguments_supplied h
  have plain := List.rel_filter (p := fun p => p.1 == none) (q := fun p => p.1 == none)
    (fun p q hpq => by simp only [(supply_eq_ok hpq).1]) all
  rw [plain_suppliedBy, List.forall₂_map_left_iff] at plain
  rw [Call.filterMap_plain?, List.forall₂_map_right_iff]
  exact plain.imp fun e q he => (supply_eq_ok he).2

end Compile

/-- A call with these texts as its arguments: its template filled with them, or a function applied to them. -/
def Call.written (kind : CallKind) (op : String) (texts : List String) : String :=
  match templateTable.lookup (kind, op) with
  | some template => String.ofList (fill template.toList texts)
  | none => callee kind op ++ "(" ++ ", ".intercalate texts ++ ")"

namespace Compile

/-- A call is assembled slot by slot. Its arguments are what stands in the slots of the operation, in order, and
behind them the plain arguments, in order; and it records what compiling all that is supplied records, each
once and in order. -/
theorem call_assembled {s : Scope} {kind : CallKind} {op : String} {args : List Expr} {text : String}
    (h : (callOf s kind op args).result = .ok text) :
    ∃ slotted plain, List.Forall₂ (Stands s args) (Call.slots op) slotted ∧
      List.Forall₂ (fun e t => (expr s e).result = .ok t) (args.filter Expr.isPlain) plain ∧
      text = Call.written kind op (slotted ++ plain) ∧
      (callOf s kind op args).log = (suppliedBy args).flatMap fun p => (expr s p.2).log := by
  rw [callOf, Outcome.map_eq_bind] at h
  obtain ⟨compiled, hcompiled, h⟩ := Outcome.result_bind_eq_ok_iff.mp h
  obtain rfl := Except.ok.inj h
  obtain ⟨each, hlog⟩ := arguments_eq_ok hcompiled
  refine ⟨(Call.slots op).map (Call.slotText compiled), compiled.filterMap Argument.plain?, ?_,
    plain_compiles hcompiled, rfl, ?_⟩
  · rw [List.forall₂_map_right_iff, List.forall₂_same]
    exact fun slot _ => each.stands slot
  · rw [callOf, Outcome.log_map, hlog]
    rfl

/-- A rectangle without a height, a pair that fills two of its slots again, and plain arguments around them. -/
theorem call_assembled_say :
    let s := Scope.initial .standard
    let args : List Expr := [.string "hi", .rect [.string "1", .string "2", .string "3"],
      .pair (.string "4") (.string "5"), .string "there"]
    let text := "__pulp.__fn_say(\"4\", \"5\", \"3\", nil, __self, __actor, event, __evname, nil, " ++
      "\"hi\", \"there\")"
    (callOf s .effect "say" args).result = .ok text ∧
      ∃ slotted, List.Forall₂ (Stands s args) (Call.slots "say") slotted ∧
        text = Call.written .effect "say" (slotted ++ ["\"hi\"", "\"there\""]) := by
  intro s args text
  have compiles : (callOf s .effect "say" args).result = .ok text := rfl
  obtain ⟨slotted, plain, hslotted, hplain, htext, -⟩ := call_assembled compiles
  refine ⟨compiles, slotted, hslotted, ?_⟩
  cases hplain with
  | cons hhi hrest =>
    cases hrest with
    | cons hthere hnil =>
      cases hnil
      obtain rfl := Except.ok.inj hhi
      obtain rfl := Except.ok.inj hthere
      exact htext

end Compile
end GameScript
