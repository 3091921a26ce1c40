import GameScript.Proofs.Compile.Action
import GameScript.Proofs.Compile.Layout

/-! Where the arguments of a call go. Every argument supplies expressions: a plain one itself, a group one for
each of its slots. The assembled call keeps those for which it has a place: plain ones behind the slots, and the
last one for each slot of the operation. -/

namespace GameScript

/-- The expressions that an argument supplies, each with the slot that it is for; plain ones are for none. Only
four parts of a rectangle have a slot. -/
def Expr.supplies : Expr → List (Option Slot × Expr)
  | .pair x y => [(some .x, x), (some .y, y)]
  | .rect parts => (Argument.rectSlots.zip parts).map fun p => (some p.1, p.2)
  | .block index => [(some .block, .block index)]
  | e => [(none, e)]

/-- All that the arguments of a call supply, in order. -/
def suppliedBy (args : List Expr) : List (Option Slot × Expr) := args.flatMap Expr.supplies

/-- The texts of a compiled argument, with their slots. -/
def Argument.entries (a : Argument) : List (Option Slot × String) :=
  (a.fills.map fun p => (some p.1, p.2)) ++ (a.plain?.map fun t => (none, t)).toList

namespace Call

/-- The place of one of a call's supplies among the assembled arguments: behind the slots if it is plain, else
in its slot, provided that the operation has the slot and nothing later fills it again. -/
def place? (op : String) (kinds : List (Option Slot)) (k : Nat) : Option Nat :=
  match kinds[k]? with
  | none => none
  | some none => some ((slots op).length + (kinds.take k).count none)
  | some (some slot) => if some slot ∈ kinds.drop (k + 1) then none else (slots op).idxOf? slot

end Call

namespace Compile

variable {bodies : BodyCompiler} {s : Scope}

/-- An expression with its slot, compiled. -/
def supply (bodies : BodyCompiler) (s : Scope) (p : Option Slot × Expr) :
    Outcome (Option Slot × String) := (fun t => (p.1, t)) <$> expression bodies s p.2

theorem sides_mapM : (slots : List Slot) → (parts : List Expr) →
    ((slots.zip parts).map fun p => (some p.1, p.2)).mapM (supply bodies s) =
      (fun ts => (slots.zip ts).map fun p => (some p.1, p.2)) <$> sides bodies s slots.length parts
  | [], _ => by
    rw [List.length_nil, sides]
    rfl
  | _ :: _, [] => by
    simp only [List.length_cons, sides]
    rfl
  | slot :: slots, part :: parts => by
    simp only [List.zip_cons_cons, List.map_cons, List.mapM_cons, sides_mapM slots parts, supply, sides,
      List.length_cons, map_eq_pure_bind, bind_assoc, pure_bind]

/-- Compiling arguments is compiling what they supply, in order. -/
theorem arguments_mapM (args : List Expr) : (suppliedBy args).mapM (supply bodies s) =
    (fun as => as.flatMap Argument.entries) <$> arguments bodies s args := by
  induction args with
  | nil => rfl
  | cons arg args ih =>
    rw [suppliedBy, List.flatMap_cons, List.mapM_append, ← suppliedBy, ih]
    cases arg with
    | pair x y =>
      simp only [Expr.supplies, List.mapM_cons, List.mapM_nil, supply, arguments, map_eq_pure_bind,
        bind_assoc, pure_bind]
      rfl
    | rect parts =>
      simp only [Expr.supplies, sides_mapM, arguments, map_eq_pure_bind, bind_assoc, pure_bind]
      simp only [List.flatMap_cons, Argument.entries, Argument.fills, Argument.plain?, Option.map_none,
        Option.toList_none, List.append_nil]
    | _ =>
      simp only [Expr.supplies, List.mapM_cons, List.mapM_nil, supply, arguments, map_eq_pure_bind,
        bind_assoc, pure_bind]
      rfl

theorem supply_eq_ok {p : Option Slot × Expr} {q : Option Slot × String}
    (h : (supply bodies s p).result = .ok q) :
    q.1 = p.1 ∧ (expression bodies s p.2).result = .ok q.2 := by
  rw [supply, Outcome.map_eq_bind] at h
  obtain ⟨t, ht, h⟩ := Outcome.result_bind_eq_ok_iff.mp h
  cases h
  exact ⟨rfl, ht⟩

/-- Each text of some compiled arguments is that of an expression that they are given, for the same slot. -/
structure Compiled (bodies : BodyCompiler) (s : Scope) (args : List Expr) (compiled : List Argument) :
    Prop where
  kinds : (compiled.flatMap Argument.entries).map Prod.fst = (suppliedBy args).map Prod.fst
  text : ∀ (k : Nat) (slot : Option Slot) (e : Expr), (suppliedBy args)[k]? = some (slot, e) →
    ∃ t, (compiled.flatMap Argument.entries)[k]? = some (slot, t) ∧ (expression bodies s e).result = .ok t

/-- Arguments that compile are compiled supply by supply, and nothing else is recorded. -/
theorem arguments_supplied {args : List Expr} {compiled : List Argument}
    (h : (arguments bodies s args).result = .ok compiled) :
    List.Forall₂ (fun p q => (supply bodies s p).result = .ok q) (suppliedBy args)
        (compiled.flatMap Argument.entries) ∧
      (arguments bodies s args).log = (suppliedBy args).flatMap fun p => (expression bodies s p.2).log := by
  have hmap : ((suppliedBy args).mapM (supply bodies s)).result =
      .ok (compiled.flatMap Argument.entries) := by
    rw [arguments_mapM, Outcome.map_eq_bind]
    exact Outcome.result_bind_eq_ok_iff.mpr ⟨compiled, h, rfl⟩
  obtain ⟨hall, hlog⟩ := Outcome.mapM_eq_ok hmap
  rw [arguments_mapM, Outcome.log_map] at hlog
  refine ⟨hall, hlog.trans ?_⟩
  simp only [supply, Outcome.log_map]

/-- Arguments that compile are compiled expression by expression, and nothing else is recorded. -/
theorem arguments_eq_ok {args : List Expr} {compiled : List Argument}
    (h : (arguments bodies s args).result = .ok compiled) : Compiled bodies s args compiled ∧
      (arguments bodies s args).log = (suppliedBy args).flatMap fun p => (expression bodies s p.2).log := by
  obtain ⟨hall, hlog⟩ := arguments_supplied h
  obtain ⟨hlength, hall⟩ := List.forall₂_iff_get.mp hall
  refine ⟨⟨?_, fun k slot e hk => ?_⟩, hlog⟩
  · refine List.ext_getElem (by simp [hlength]) fun k hk hk' => ?_
    rw [List.getElem_map, List.getElem_map]
    exact (supply_eq_ok (hall k _ _)).1
  · obtain ⟨hk, hget⟩ := List.getElem?_eq_some_iff.mp hk
    obtain ⟨hslot, ht⟩ := supply_eq_ok (hall k hk (hlength ▸ hk))
    simp only [List.get_eq_getElem, hget] at hslot ht
    exact ⟨_, List.getElem?_eq_some_iff.mpr ⟨hlength ▸ hk, Prod.ext hslot rfl⟩, ht⟩

end Compile

namespace Call

/-! ### Places -/

theorem flatMap_fills (compiled : List Argument) : compiled.flatMap Argument.fills =
    (compiled.flatMap Argument.entries).filterMap fun p => p.1.map fun slot => (slot, p.2) := by
  induction compiled with
  | nil => rfl
  | cons a compiled ih =>
    rw [List.flatMap_cons, List.flatMap_cons, List.filterMap_append, ← ih]
    cases a <;> simp [Argument.entries, Argument.fills, Argument.plain?]

theorem filterMap_plain? (compiled : List Argument) : compiled.filterMap Argument.plain? =
    ((compiled.flatMap Argument.entries).filter fun p => p.1 == none).map Prod.snd := by
  have groups : ∀ fills : List (Slot × String),
      (fills.map fun p => (some p.1, p.2)).filter (fun p => p.1 == none) = [] := by
    simp [List.filter_map]
  induction compiled with
  | nil => rfl
  | cons a compiled ih =>
    rw [List.flatMap_cons, List.filter_append, List.map_append, ← ih, Argument.entries,
      List.filter_append, groups, List.filterMap_cons]
    cases a.plain? <;> rfl

variable {op : String} {compiled : List Argument} {before after : List (Option Slot × String)}
  {text : String}

/-- A plain argument stands behind the slots, after the plain ones before it. -/
theorem getElem?_assembled_plain
    (h : compiled.flatMap Argument.entries = before ++ (none, text) :: after) :
    (assembled op compiled)[(slots op).length + (before.map Prod.fst).count none]? = some text := by
  have count : (before.map Prod.fst).count none = (before.filter fun p => p.1 == none).length := by
    rw [List.count_eq_length_filter, List.filter_map, List.length_map]
    rfl
  rw [assembled, List.getElem?_append_right (by simp), List.length_map, Nat.add_sub_cancel_left,
    filterMap_plain?, h, count]
  simp

/-- What fills a slot last stands in it. -/
theorem slotText_eq {slot : Slot}
    (h : compiled.flatMap Argument.entries = before ++ (some slot, text) :: after)
    (hafter : some slot ∉ after.map Prod.fst) : slotText compiled slot = text := by
  have last : ((compiled.flatMap Argument.fills).reverse).lookup slot = some text := by
    let fill (p : Option Slot × String) := p.1.map fun slot => (slot, p.2)
    rw [flatMap_fills, h, List.lookup_eq_some_iff]
    refine ⟨(after.filterMap fill).reverse, (before.filterMap fill).reverse, by simp [fill], ?_⟩
    intro p hp
    obtain ⟨⟨kind, t⟩, hq, hfill⟩ := List.mem_filterMap.mp (List.mem_reverse.mp hp)
    obtain ⟨slot', rfl, rfl⟩ := Option.map_eq_some_iff.mp hfill
    refine bne_iff_ne.mpr fun hslot => hafter ?_
    exact List.mem_map.mpr ⟨_, hq, congrArg some hslot.symm⟩
  rw [slotText, last, Option.getD_some]

theorem getElem?_assembled {kind : Option Slot} {k i : Nat}
    (h : (compiled.flatMap Argument.entries)[k]? = some (kind, text))
    (hplace : place? op ((compiled.flatMap Argument.entries).map Prod.fst) k = some i) :
    (assembled op compiled)[i]? = some text := by
  generalize hentries : compiled.flatMap Argument.entries = entries at h hplace
  obtain ⟨hk, hget⟩ := List.getElem?_eq_some_iff.mp h
  have hsplit : entries = entries.take k ++ (kind, text) :: entries.drop (k + 1) := by
    rw [← hget, List.getElem_cons_drop, List.take_append_drop]
  rw [place?, List.getElem?_map, h, Option.map_some] at hplace
  cases kind with
  | none =>
    cases hplace
    rw [← List.map_take]
    exact getElem?_assembled_plain (hentries.trans hsplit)
  | some slot =>
    simp only at hplace
    split_ifs at hplace with hafter
    rw [← List.map_drop] at hafter
    have htext := slotText_eq (hentries.trans hsplit) hafter
    obtain ⟨hi, hslot, -⟩ := List.idxOf?_eq_some_iff.mp hplace
    rw [assembled, List.getElem?_append_left (by simpa using hi), List.getElem?_map,
      List.getElem?_eq_getElem hi, hslot, Option.map_some, htext]

end Call

namespace Compile

/-- Where the arguments of a call stand in its text. The text is the layout of the call with texts in its holes.
Everything that the arguments supply and that has a place stands there, compiled, and the place has a hole
unless a template has fewer: plain arguments always have one, parts of a group if the operation has their slot
and no later group fills it. What has no place is dropped, and nothing is recorded but what compiling the
supplied expressions records. The last part is for calls that are no label with a rectangle, though its proof
does not look at the operation: a label has slots for a length and a number of lines, which no argument fills, and
none for the width and the height of a rectangle. That these are lost is a slip in the slots and not to be
promised. -/
theorem argument_places {bodies : BodyCompiler} {s : Scope} {kind : CallKind} {op : String}
    {args : List Expr} {text : String}
    (h : (Call.text kind op <$> arguments bodies s args).result = .ok text) :
    ∃ texts, text = Call.render (Call.layout kind op texts.length) texts ∧
      (∀ k slot e i, (suppliedBy args)[k]? = some (slot, e) →
        Call.place? op ((suppliedBy args).map Prod.fst) k = some i →
          ∃ t, (expression bodies s e).result = .ok t ∧ texts[i]? = some t ∧
            (i < Call.holeCount kind op texts.length →
              .hole i ∈ Call.layout kind op texts.length)) ∧
      ((op = "label" → ∀ parts, .rect parts ∉ args) →
        (Call.text kind op <$> arguments bodies s args).log =
          (suppliedBy args).flatMap fun p => (expression bodies s p.2).log) := by
  rw [Outcome.map_eq_bind] at h
  obtain ⟨compiled, hcompiled, h⟩ := Outcome.result_bind_eq_ok_iff.mp h
  obtain rfl := Except.ok.inj h
  obtain ⟨⟨kinds, all⟩, hlog⟩ := arguments_eq_ok hcompiled
  refine ⟨Call.assembled op compiled, Call.text_eq_render .., fun k slot e i hk hplace => ?_, fun _ => ?_⟩
  · obtain ⟨t, ht, htext⟩ := all k slot e hk
    rw [← kinds] at hplace
    exact ⟨t, htext, Call.getElem?_assembled ht hplace, Call.hole_mem_layout_iff.mpr⟩
  · rw [Outcome.log_map, hlog]

/-- A pair and a plain argument of an operation with a position. -/
theorem argument_places_goto :
    let s := Scope.initial .standard
    let args : List Expr := [.string "cave", .pair (.string "a") (.string "b")]
    (callOf s .effect "goto" args).result = .ok "__pulp.__fn_goto(\"a\", \"b\", \"cave\")" ∧
      ∃ texts, "__pulp.__fn_goto(\"a\", \"b\", \"cave\")" =
          Call.render (Call.layout .effect "goto" texts.length) texts ∧
        texts[2]? = some "\"cave\"" ∧ texts[0]? = some "\"a\"" ∧ texts[1]? = some "\"b\"" := by
  intro s args
  have compiles : (Call.text .effect "goto" <$> arguments body s args).result =
      .ok "__pulp.__fn_goto(\"a\", \"b\", \"cave\")" := rfl
  obtain ⟨texts, htext, places, -⟩ := argument_places compiles
  obtain ⟨t, ht, hcave, -⟩ := places 0 none (.string "cave") 2 rfl rfl
  obtain ⟨u, hu, ha, -⟩ := places 1 (some .x) (.string "a") 0 rfl rfl
  obtain ⟨v, hv, hb, -⟩ := places 2 (some .y) (.string "b") 1 rfl rfl
  obtain rfl := Except.ok.inj ht
  obtain rfl := Except.ok.inj hu
  obtain rfl := Except.ok.inj hv
  exact ⟨compiles, texts, htext, hcave, ha, hb⟩

/-- A call loses an expression that it is given without telling: it compiles and records nothing, and the
expression's text is nowhere in it. -/
def LosesSilently (s : Scope) (kind : CallKind) (op : String) (args : List Expr) (e : Expr) : Prop :=
  ∃ out t, callOf s kind op args = ⟨[], .ok out⟩ ∧ (expr s e).result = .ok t ∧
    ¬ t.toList <:+: out.toList

theorem LosesSilently.of_not_mem {s : Scope} {kind : CallKind} {op : String} {args : List Expr} {e : Expr}
    {out t : String} (c : Char) (hout : callOf s kind op args = ⟨[], .ok out⟩)
    (ht : (expr s e).result = .ok t) (hc : c ∈ t.toList) (hnot : c ∉ out.toList) :
    LosesSilently s kind op args e :=
  ⟨out, t, hout, ht, fun h => hnot (h.subset hc)⟩

/-- An operation without slots loses a pair, one with slots the first of two pairs and the fifth part of a
rectangle, and a template the arguments that it has no holes for. -/
theorem argument_places_lost :
    let s := Scope.initial .standard
    let a : Expr := .string "a"
    let b : Expr := .string "b"
    let c : Expr := .string "c"
    LosesSilently s .effect "sound" [.pair a b] a ∧
      LosesSilently s .effect "goto" [.pair a b, .pair b c] a ∧
      LosesSilently s .effect "window" [.rect [b, b, b, b, a]] a ∧
      LosesSilently s .effect "log" [a, b] b := by
  intro s a b c
  have sound : callOf s .effect "sound" [.pair a b] = ⟨[], .ok "__pulp.__fn_sound()"⟩ := rfl
  have goto : callOf s .effect "goto" [.pair a b, .pair b c] =
      ⟨[], .ok "__pulp.__fn_goto(\"b\", \"c\")"⟩ := rfl
  have window : callOf s .effect "window" [.rect [b, b, b, b, a]] =
      ⟨[], .ok "__pulp.__fn_window(\"b\", \"b\", \"b\", \"b\")"⟩ := rfl
  have log : callOf s .effect "log" [a, b] = ⟨[], .ok "__print(\"a\")"⟩ := by
    have text : Call.text .effect "log" [.plain "\"a\"", .plain "\"b\""] = "__print(\"a\")" := by
      decide +kernel
    exact congrArg (fun t => (⟨[], .ok t⟩ : Outcome String)) text
  exact ⟨.of_not_mem 'a' sound rfl (by decide) (by decide), .of_not_mem 'a' goto rfl (by decide) (by decide),
    .of_not_mem 'a' window rfl (by decide) (by decide), .of_not_mem 'b' log rfl (by decide) (by decide)⟩

end Compile
end GameScript
