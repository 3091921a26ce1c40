import GameScript.Proofs.Compile.Statements
import GameScript.Proofs.Lua.Nesting

/-! The clauses of conditionals. A document may bring them in any order, each is decoded by itself, and they are
written in the order they come in; the text is a statement exactly where that order is one of the grammar. -/

namespace GameScript

open Lua Compile

/-! ### Clauses out of order -/

namespace Lua

/-- Behind a clause without a condition nothing goes on. -/
theorem behind_clause {c : Clause} {form : List Symbol} {ts : List Token} {n : Nesting}
    (hts : Derives true (c.form ++ form) ts) :
    behind true (fun _ => true) (ts.map Token.shape) (false :: n) = none := by
  have key : ∃ t ts', ts = t :: ts' ∧ (t.shape = .fixed "elseif" ∨ t.shape = .fixed "else") := by
    cases c with
    | elseIf c block =>
      cases hts with
      | token ht _ => exact ⟨_, _, rfl, .inl ht⟩
      | expand hinner _ _ => cases hinner
    | otherwise block =>
      cases hts with
      | token ht _ => exact ⟨_, _, rfl, .inr ht⟩
      | expand hinner _ _ => cases hinner
  obtain ⟨t, ts', rfl, ht | ht⟩ := key <;> rw [List.map_cons, ht] <;> rfl

theorem behind_of_not_isChain : (clauses : List Clause) → isChain clauses = false → {ts : List Token} → {n : Nesting} →
    Derives true (clauses.flatMap Clause.form ++ [("end" : Symbol)]) ts →
    behind true (fun _ => true) (ts.map Token.shape) (true :: n) = none
  | [], h, _, _, _ => nomatch h
  | .elseIf _ _ :: clauses, h, _, n, hts => by
    rw [List.flatMap_cons, List.append_assoc] at hts
    obtain ⟨us, vs, rfl, hus, hvs⟩ := Derives.append_iff.mp hts
    have front : behind true (fun _ => true) (us.map Token.shape) (true :: n) = some (true :: n) :=
      hus.behind (.all true) rfl
    rw [List.map_append, behind_append, front]
    exact behind_of_not_isChain clauses h hvs
  | [.otherwise _], h, _, _, _ => nomatch h
  | .otherwise _ :: c :: clauses, _, _, n, hts => by
    rw [List.flatMap_cons, List.append_assoc] at hts
    obtain ⟨us, vs, rfl, hus, hvs⟩ := Derives.append_iff.mp hts
    have front : behind true (fun _ => true) (us.map Token.shape) (true :: n) = some (false :: n) :=
      hus.behind (.all true) rfl
    rw [List.flatMap_cons, List.append_assoc] at hvs
    rw [List.map_append, behind_append, front]
    exact behind_clause hvs

/-- What a conditional consists of is a statement exactly where its clauses are in order. -/
theorem derives_stat_iff {clauses : List Clause} {ts : List Token} (hts : Derives true (conditionalForm clauses) ts) :
    Derives true [.stat] ts ↔ isChain clauses = true := by
  constructor
  · intro h
    by_contra hchain
    have whole : behind true (fun _ => true) (ts.map Token.shape) [] = some [] := h.behind (.all true) rfl
    obtain ⟨us, vs, rfl, hus, hvs⟩ := Derives.append_iff.mp hts
    have front : behind true (fun _ => true) (us.map Token.shape) [] = some [true] := hus.behind (.all true) rfl
    have rest := behind_of_not_isChain clauses (Bool.eq_false_iff.mpr hchain) (n := []) hvs
    rw [List.map_append, behind_append, front, Option.bind_some, rest] at whole
    cases whole
  · exact fun h => derives_conditional (fun _ => h) hts

end Lua
/-! ### Decoding conditionals -/

theorem CommandTag.text_of_ofText? {tag : String} {t : CommandTag} (h : ofText? tag = some t) : t.text = tag := by
  unfold ofText? at h
  split at h
  · next t' heq =>
    cases h
    have found := List.find?_some heq
    exact of_decide_eq_true found
  · obtain ⟨op, hop, rfl⟩ := Option.map_eq_some_iff.mp h
    have found := List.find?_some hop
    exact of_decide_eq_true found

namespace Decode

variable {count : Nat}

theorem mapM_eq_ok_iff {ε α β : Type} {f : α → Except ε β} {as : List α} {bs : List β} :
    as.mapM f = .ok bs ↔ List.Forall₂ (fun a b => f a = .ok b) as bs := by
  refine ⟨mapM_eq_ok, fun h => ?_⟩
  induction h with
  | nil => rfl
  | cons hab _ ih => rw [List.mapM_cons, hab, ih]; rfl

theorem bind_eq_ok_iff {ε α β : Type} {x : Except ε α} {f : α → Except ε β} {b : β} :
    x >>= f = .ok b ↔ ∃ a, x = .ok a ∧ f a = .ok b := by
  refine ⟨bind_eq_ok, ?_⟩
  rintro ⟨a, rfl, h⟩
  exact h

theorem map_eq_ok_iff {ε α β : Type} {x : Except ε α} {f : α → β} {b : β} :
    f <$> x = .ok b ↔ ∃ a, x = .ok a ∧ f a = b := by
  refine ⟨map_eq_ok, ?_⟩
  rintro ⟨a, rfl, rfl⟩
  rfl

/-- No other tag than that of conditionals gives one. -/
theorem tagged_eq_cond_iff {tag : String} {args : List Json} {c : Comparison} {b : Nat} {clauses : List Clause} :
    tagged count tag args = .ok (.cond c b clauses) ↔ tag = "if" ∧
      List.Forall₂ (fun raw k => clause count raw = .ok k) (args.drop 2) clauses ∧
      comparison count tag args.head? = .ok c ∧ body count tag args[1]? = .ok b := by
  constructor
  · intro h
    unfold tagged at h
    cases htag : CommandTag.ofText? tag with
    | none => simp [htag] at h
    | some t =>
      cases t with
      | cond =>
        simp only [htag, bind_eq_ok_iff, mapM_eq_ok_iff] at h
        obtain ⟨_, hclauses, _, hc, _, hb, h⟩ := h
        cases h
        exact ⟨(CommandTag.text_of_ofText? htag).symm, hclauses, hc, hb⟩
      | _ => simp [htag, bind_eq_ok_iff, map_eq_ok_iff, pure, Except.pure] at h
  · rintro ⟨rfl, hclauses, hc, hb⟩
    have htag : CommandTag.ofText? "if" = some .cond := by decide
    simp only [tagged, htag, bind_eq_ok_iff, mapM_eq_ok_iff]
    exact ⟨clauses, hclauses, c, hc, b, hb, rfl⟩

/-- A conditional is decoded from its parts, and its clauses one by one, in the order they are stored in. -/
theorem command_eq_cond_iff {v : Json} {c : Comparison} {b : Nat} {clauses : List Clause} :
    command count v = .ok (some (.cond c b clauses)) ↔ ∃ head ref raws,
      v = .array (.string "if" :: head :: ref :: raws) ∧ comparison count "if" (some head) = .ok c ∧
      body count "if" (some ref) = .ok b ∧ List.Forall₂ (fun raw k => clause count raw = .ok k) raws clauses := by
  constructor
  · intro h
    unfold command at h
    split at h
    · next tag args =>
      obtain ⟨_, htagged, heq⟩ := map_eq_ok h
      obtain rfl := Option.some.inj heq
      obtain ⟨rfl, hclauses, hc, hb⟩ := tagged_eq_cond_iff.mp htagged
      match args with
      | [] => cases hc
      | [_] => cases hb
      | head :: ref :: raws => exact ⟨head, ref, raws, rfl, hc, hb, hclauses⟩
    · cases h
    · cases h
  · rintro ⟨head, ref, raws, rfl, hc, hb, hclauses⟩
    have decoded : tagged count "if" (head :: ref :: raws) = .ok (.cond c b clauses) :=
      tagged_eq_cond_iff.mpr ⟨rfl, hclauses, hc, hb⟩
    rw [command, decoded]
    rfl

/-- The commands of a block are those of its entries. -/
theorem mem_block_iff {script : Int} {index : Nat} {entries : List Json} {cs : Block}
    (h : block script count index (.array entries) = .ok cs) {c : Command} :
    c ∈ cs ↔ ∃ v ∈ entries, command count v = .ok (some c) := by
  obtain ⟨decoded, hdecoded, rfl⟩ := map_eq_ok h
  simp only [List.mem_filterMap, id_eq, exists_eq_right]
  constructor
  · exact exists_of_mapM_eq_ok hdecoded
  · rintro ⟨v, hv, hc⟩
    obtain ⟨i, hi, rfl⟩ := List.getElem_of_mem hv
    have each := mapM_eq_ok hdecoded
    have hlength := each.length_eq
    have same := (each.get hi (by omega)).symm.trans hc
    exact Except.ok.inj same ▸ List.getElem_mem _

/-- The conditionals of a block are those that an entry gives part by part. -/
theorem cond_mem_block_iff {script : Int} {index : Nat} {entries : List Json} {cs : Block}
    (h : block script count index (.array entries) = .ok cs) {c : Comparison} {b : Nat} {clauses : List Clause} :
    .cond c b clauses ∈ cs ↔ ∃ head ref raws, Json.array (.string "if" :: head :: ref :: raws) ∈ entries ∧
      comparison count "if" (some head) = .ok c ∧ body count "if" (some ref) = .ok b ∧
      List.Forall₂ (fun raw k => clause count raw = .ok k) raws clauses := by
  rw [mem_block_iff h]
  constructor
  · rintro ⟨v, hv, hdecoded⟩
    obtain ⟨head, ref, raws, rfl, hparts⟩ := command_eq_cond_iff.mp hdecoded
    exact ⟨head, ref, raws, hv, hparts⟩
  · rintro ⟨head, ref, raws, hv, hparts⟩
    exact ⟨_, hv, command_eq_cond_iff.mpr ⟨head, ref, raws, rfl, hparts⟩⟩

end Decode

/-! ### Texts of conditionals -/

/-- The text is one statement. -/
def Lua.IsStatement (t : String) : Prop := ∃ ts, tokens? t.toList = some ts ∧ Derives true [.stat] ts

namespace Compile

/-- Where everything in a conditional is legible and the conditionals inside of it are in order, its text is a
statement exactly where its own clauses are. -/
theorem command_isStatement_iff {known : List Nat} {s : Scope} (hs : s.Legible true known) {c : Comparison} {b : Nat}
    {clauses : List Clause} (hc : (Command.cond c b clauses).isLegible known = true) {t : String}
    (ht : (command s (.cond c b clauses)).result = .ok t) : IsStatement t ↔ isChain clauses = true := by
  have yields : Outcome.Yields (IsDeclaration true) (fun t => Spelled true .any t (conditionalForm clauses))
      (command s (.cond c b clauses)) := by
    have lines : Outcome.Yields (IsDeclaration true)
        (fun t => ∃ u, t = some u ∧ Spelled true .stop u (conditionalForm clauses)) (line body s (.cond c b clauses)) :=
      (conditional_yields (bodiesLegal_body hs) hc).map fun u hu => ⟨u, rfl, hu⟩
    refine lines.bind fun t ht => ?_
    obtain ⟨u, rfl, hu⟩ := ht
    have whole : Spelled true .any _ (conditionalForm clauses) := (Spelled.margin s).append hu.ended
    rw [← String.append_assoc] at whole
    exact .pure whole
  obtain ⟨ts, hreads, hform⟩ := yields.result t ht
  rw [← derives_stat_iff hform]
  have alone := hreads.tokens? rfl
  constructor
  · rintro ⟨ts', hts', hstat⟩
    rw [alone] at hts'
    exact Option.some.inj hts' ▸ hstat
  · exact fun h => ⟨ts, alone, h⟩

/-- The clauses of a conditional are in the order of the document, whichever that is. In every block that is decoded,
a conditional comes from an entry whose parts are decoded one by one, its clauses as they are stored; and every such
entry is accepted. Its text, where what it consists of can be read and the conditionals inside of it are in order, is
a statement exactly where the clauses with conditions come first and at most one without a condition follows them. -/
theorem conditional_clauses {script : Int} {count index : Nat} {entries : List Json} {cs : Block}
    (hblock : Decode.block script count index (.array entries) = .ok cs) (c : Comparison) (b : Nat)
    (clauses : List Clause) :
    (.cond c b clauses ∈ cs ↔ ∃ head ref raws, Json.array (.string "if" :: head :: ref :: raws) ∈ entries ∧
      Decode.comparison count "if" (some head) = .ok c ∧ Decode.body count "if" (some ref) = .ok b ∧
      List.Forall₂ (fun raw k => Decode.clause count raw = .ok k) raws clauses) ∧
    (∀ (head ref : Json) (raws : List Json), Decode.comparison count "if" (some head) = .ok c →
      Decode.body count "if" (some ref) = .ok b →
      List.Forall₂ (fun raw k => Decode.clause count raw = .ok k) raws clauses →
      Decode.command count (.array (.string "if" :: head :: ref :: raws)) = .ok (some (.cond c b clauses))) ∧
    ∀ (known : List Nat) (s : Scope) (t : String), s.Legible true known →
      (Command.cond c b clauses).isLegible known = true → (command s (.cond c b clauses)).result = .ok t →
      (IsStatement t ↔ isChain clauses = true) := by
  refine ⟨Decode.cond_mem_block_iff hblock, fun head ref raws hc hb hclauses => ?_, fun known s t hs hc ht => ?_⟩
  · exact Decode.command_eq_cond_iff.mpr ⟨head, ref, raws, rfl, hc, hb, hclauses⟩
  · exact command_isStatement_iff hs hc ht

/-- A conditional with its clauses in order. -/
theorem conditional_clauses_ordered :
    let equals (n : Int) : Json := .array [.string "eq", .string "x", .number (.integer n)]
    let ref : Json := .array [.string "block", .number (.integer 1)]
    let raws : List Json := [.array [.string "elseif", equals 2, ref], .array [.string "else", ref]]
    let entry : Json := .array (.string "if" :: equals 1 :: ref :: raws)
    let c (n : Int) : Comparison := ⟨.eq, .string "x", .number (.integer n)⟩
    let clauses : List Clause := [.elseIf (c 2) 1, .otherwise 1]
    let cond : Command := .cond (c 1) 1 clauses
    let s := (Scope.initial .standard).withBlocks [[cond], []]
    Decode.block 0 2 0 (.array [entry]) = .ok [cond] ∧
    (∃ head body raws', Json.array (.string "if" :: head :: body :: raws') ∈ [entry] ∧
      List.Forall₂ (fun raw k => Decode.clause 2 raw = .ok k) raws' clauses) ∧
    Decode.command 2 entry = .ok (some cond) ∧
    ∃ t, (command s cond).result = .ok t ∧ IsStatement t := by
  intro equals ref raws entry c clauses cond s
  have decoded : Decode.block 0 2 0 (.array [entry]) = .ok [cond] := rfl
  obtain ⟨stored, accepts, legal⟩ := conditional_clauses decoded (c 1) 1 clauses
  have hclauses : List.Forall₂ (fun raw k => Decode.clause 2 raw = .ok k) raws clauses := .cons rfl (.cons rfl .nil)
  obtain ⟨head, body, raws', hmem, -, -, hraws'⟩ := stored.mp (List.mem_singleton_self _)
  have compiles : (command s cond).result = .ok "  if x == 1 then\n  elseif x == 2 then\n  else\n  end\n" := by rfl
  have legible : s.Legible true [1] := Scope.legible_of_empty rfl rfl (by simp [s, Scope.withBlocks])
  exact ⟨decoded, ⟨head, body, raws', hmem, hraws'⟩, accepts (equals 1) ref raws rfl rfl hclauses, _, compiles,
    (legal [1] s _ legible (by decide) compiles).mpr rfl⟩

/-- A conditional with a clause behind the one without a condition is decoded and compiled, and its text is no
statement. -/
theorem conditional_clauses_misplaced :
    let equals (n : Int) : Json := .array [.string "eq", .string "x", .number (.integer n)]
    let ref : Json := .array [.string "block", .number (.integer 1)]
    let raws : List Json := [.array [.string "else", ref], .array [.string "elseif", equals 2, ref]]
    let c (n : Int) : Comparison := ⟨.eq, .string "x", .number (.integer n)⟩
    let clauses : List Clause := [.otherwise 1, .elseIf (c 2) 1]
    let cond : Command := .cond (c 1) 1 clauses
    let s := (Scope.initial .standard).withBlocks [[cond], []]
    Decode.blocks 0 [.array [.array (.string "if" :: equals 1 :: ref :: raws)], .array []] = .ok [[cond], []] ∧
    isChain clauses = false ∧
    (command s cond).result = .ok "  if x == 1 then\n  else\n  elseif x == 2 then\n  end\n" ∧
    ¬ IsStatement "  if x == 1 then\n  else\n  elseif x == 2 then\n  end\n" := by
  intro equals ref raws c clauses cond s
  have compiles : (command s cond).result = .ok "  if x == 1 then\n  else\n  elseif x == 2 then\n  end\n" := by rfl
  have legible : s.Legible true [1] := Scope.legible_of_empty rfl rfl (by simp [s, Scope.withBlocks])
  refine ⟨by rfl, rfl, compiles, fun h => ?_⟩
  cases (command_isStatement_iff legible (by decide) compiles).mp h

end Compile
end GameScript
