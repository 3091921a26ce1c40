import GameScript.Proofs.Compile.Compound
import GameScript.Ledger

/-! Calls as a reader of the output takes them. The name of a call stands in two places, as the key that the handler is
looked up by and as the name that the handler is told; unless it is a literal, both places evaluate it, and they agree
where evaluating it a second time makes no difference. -/

namespace GameScript

open Lua Compile

namespace Lua

/-! ### Invocations -/

/-- What a handler is looked up by, and what it is told. The name of a field is a text. -/
structure Invocation where
  key : List Token
  told : List Token
deriving DecidableEq

/-- What stands in front of the bracket that closes what is around it, and what stands behind that bracket. -/
def enclosed? : Nesting → List Token → List Token → Option (List Token × List Token)
  | _, _, [] => none
  | n, inside, t :: ts =>
      if n.isEmpty && t.shape.move false == .closes then some (inside, ts)
      else ((t.shape.move false).apply n).bind fun n' => enclosed? n' (inside ++ [t]) ts

/-- The object that calls dispatch on, in front of a key. -/
def dispatching : List Token := [.symbol ";", .symbol "(", .word "__evobj"]

/-- What stands between the key and what is told. -/
def telling : List Token :=
  [.word "or", .word "__evobj", .symbol ".", .word "any", .symbol ")", .symbol "(", .word "__evobj", .symbol ",",
   .word "__actor", .symbol ",", .word "event", .symbol ","]

/-- The key of an entry, and what stands behind it. -/
def key? : List Token → Option (List Token × List Token)
  | .symbol "." :: .word x :: ts => some ([.literal x], ts)
  | .symbol "[" :: ts => enclosed? [] [] ts
  | _ => none

def invocation? (ts : List Token) : Option Invocation :=
  (ts.dropPrefix? dispatching).bind fun ts => (key? ts).bind fun (key, ts) =>
    (ts.dropPrefix? telling).bind fun ts =>
      match enclosed? [] [] ts with
      | some (told, []) => some ⟨key, told⟩
      | _ => none

/-- What closes all that it opens stands in front of a closing bracket as a whole. -/
theorem enclosed?_append {rest : List Token} : {ts : List Token} → {n n' : Nesting} → {inside : List Token} →
    behind false (fun _ => true) (ts.map Token.shape) n = some n' →
    enclosed? n inside (ts ++ rest) = enclosed? n' (inside ++ ts) rest
  | [], n, n', inside, h => by
    cases h
    rw [List.nil_append, List.append_nil]
  | t :: ts, n, n', inside, h => by
    obtain ⟨-, m, hm, hts⟩ := behind_cons_eq_some.mp h
    have inner : ¬ (n.isEmpty && t.shape.move false == .closes) = true := by
      intro hclose
      obtain ⟨hempty, hmove⟩ := Bool.and_eq_true_iff.mp hclose
      rw [List.isEmpty_iff.mp hempty, eq_of_beq hmove] at hm
      cases hm
    rw [List.cons_append, enclosed?, if_neg inner, hm, Option.bind_some, enclosed?_append hts, List.append_assoc]
    rfl

theorem enclosed?_exp {ts : List Token} (h : Derives false [.exp] ts) {closer : String}
    (hcloser : closer ∈ Symbol.closers) (rest : List Token) :
    enclosed? [] [] (ts ++ .symbol closer :: rest) = some (ts, rest) := by
  have closes : ∀ closer ∈ Symbol.closers, (Symbol.fixed closer).move false = .closes := by decide
  have quiet : behind false (fun _ => true) (ts.map Token.shape) [] = some [] := h.behind (.all false) rfl
  rw [enclosed?_append quiet, List.nil_append, enclosed?, Token.shape, closes closer hcloser]
  rfl

/-- An invocation is read from its parts. -/
theorem invocation?_eq {slot key told : List Token} (hslot : ∀ rest, key? (slot ++ rest) = some (key, rest))
    (htold : Derives false [.exp] told) :
    invocation? (dispatching ++ slot ++ telling ++ told ++ [.symbol ")"]) = some ⟨key, told⟩ := by
  simp only [invocation?, List.append_assoc]
  rw [List.dropPrefix?_append_of_beq _ BEq.rfl, Option.bind_some, hslot, Option.bind_some,
    List.dropPrefix?_append_of_beq _ BEq.rfl, Option.bind_some, enclosed?_exp htold (by decide)]

namespace Invocation

variable {σ α : Type}

/-- The value that the handler is looked up by and the one that it is told, which is evaluated later. -/
def values (eval : List Token → σ → α × σ) (i : Invocation) (state : σ) : α × α :=
  let looked := eval i.key state
  (looked.1, (eval i.told looked.2).1)

/-- The handler is told what it is looked up by, whatever there is before. -/
def Agrees (eval : List Token → σ → α × σ) (i : Invocation) : Prop :=
  ∀ state, (i.values eval state).2 = (i.values eval state).1

end Invocation
end Lua

namespace Compile

variable {known : List Nat} {s : Scope}

/-! ### Texts of calls -/

/-- The slot of a call whose name has a text. A literal that can be one is a field. -/
def calleeText (name : Expr) (text : String) : String :=
  match name with
  | .string t => field "__evobj" t
  | _ => "__evobj[" ++ text ++ "]"

def invocationText (slot name : String) : String :=
  ";(" ++ slot ++ " or __evobj.any)(__evobj, __actor, event, " ++ name ++ ")"

/-- The comment behind an invocation says what is called. -/
theorem invocationText_remark (slot name remark : String) : invocationText slot name ++ " -- call " ++ remark =
    ";(" ++ slot ++ " or __evobj.any)(__evobj, __actor, event, " ++ name ++ ") -- call " ++ remark := by
  have comment : ") -- call " = ")" ++ " -- call " := by decide
  rw [invocationText, comment]
  simp only [String.append_assoc]

theorem callSlot_eq (bodies : BodyCompiler) (s : Scope) (name : Expr) :
    callSlot bodies s name = (fun n => (calleeText name n, n)) <$> expression bodies s name := by
  cases name with
  | string t =>
    rw [callSlot, field.eq_def]
    split_ifs with h
    · simp only [expression, calleeText, field, if_pos h, map_pure]
    · simp only [expression, calleeText, field, if_neg h, map_pure]
      rfl
  | _ => rfl

/-- A call compiles where its name does. -/
theorem call_text {name : Expr} {t : String} : (command s (.call name)).result = .ok t ↔
    ∃ n, (expr s name).result = .ok n ∧
      t = s.margin ++ invocationText (calleeText name n) n ++ " -- call " ++ oneLine n ++ "\n" := by
  have whole : command s (.call name) = Outcome.declare s!"local __evobj = {s.target}" >>= fun _ =>
      expression body s name >>= fun n => pure (s.margin ++ (";(" ++ calleeText name n ++
        " or __evobj.any)(__evobj, __actor, event, " ++ n ++ ") -- call " ++ oneLine n) ++ "\n") := by
    simp only [command, commandWith, line, call, callSlot_eq, map_eq_pure_bind, bind_assoc, pure_bind]
    rfl
  have same : ∀ n, s.margin ++ (";(" ++ calleeText name n ++ " or __evobj.any)(__evobj, __actor, event, " ++ n ++
      ") -- call " ++ oneLine n) ++ "\n" =
      s.margin ++ invocationText (calleeText name n) n ++ " -- call " ++ oneLine n ++ "\n" := by
    intro n
    rw [← invocationText_remark]
    simp only [String.append_assoc]
  simp only [whole, same]
  constructor
  · intro h
    obtain ⟨-, -, h⟩ := Outcome.result_bind_eq_ok_iff.mp h
    obtain ⟨n, hn, h⟩ := Outcome.result_bind_eq_ok_iff.mp h
    exact ⟨n, hn, (Except.ok.inj h).symm⟩
  · rintro ⟨n, hn, rfl⟩
    exact Outcome.result_bind_eq_ok_iff.mpr ⟨(), rfl, Outcome.result_bind_eq_ok_iff.mpr ⟨n, hn, rfl⟩⟩

/-- A text with another one in two places does not have it in one. -/
theorem not_once (front n middle back : List Char) (hmiddle : middle ≠ []) :
    ¬ ∃! place, place ++ n <+: front ++ n ++ middle ++ n ++ back := by
  rintro ⟨place, -, only⟩
  have first := only front ⟨middle ++ n ++ back, by simp⟩
  have second := only (front ++ n ++ middle) ⟨back, by simp⟩
  have same := congrArg List.length (first.trans second.symm)
  have filled := List.length_pos_iff.mpr hmiddle
  simp only [List.length_append] at same
  omega

/-! ### Reading calls -/

theorem token_eq_of_shape {t : Token} {symbol : String} (h : t.shape = .fixed symbol)
    (hsymbol : keywords.contains symbol = false) : t = .symbol symbol := by
  cases t with
  | symbol s => exact congrArg Token.symbol (Symbol.fixed.inj h)
  | word w =>
    rw [Token.shape] at h
    split_ifs at h with hkey
    obtain rfl := Symbol.fixed.inj h
    rw [hsymbol] at hkey
    cases hkey
  | numeral n => cases h
  | literal l => cases h

/-- A slot with its key in brackets. -/
theorem bracketed_reads {n : String} {ns : List Token} (hn : Reads .stop n ns) (hstarts : Starts .bracket n) :
    Reads .any ("__evobj[" ++ n ++ "]") (.word "__evobj" :: .symbol "[" :: (ns ++ [.symbol "]"])) := by
  have opener : Reads .bracket "__evobj[" [.word "__evobj", .symbol "["] := .checked (by decide)
  have closer : Reads .any "]" [.symbol "]"] := .checked (by decide)
  have whole := (opener.started hn hstarts).started closer (.fixed (by decide))
  rwa [List.append_assoc] at whole

/-- A slot whose key is the name of a field. -/
theorem field_reads {x : String} (hx : IsName x) (hstarts : Starts .name x) :
    Reads .stop ("__evobj" ++ "." ++ x) [.word "__evobj", .symbol ".", .word x] := by
  have front : Reads .name ("__evobj" ++ ".") [.word "__evobj", .symbol "."] := .checked (by decide)
  exact (front.started (reads_word hx) hstarts).narrow word_of_stop

/-- The name of a call is read as an expression; a literal is read as itself. -/
structure NameReads (name : Expr) (n : String) (ns : List Token) : Prop where
  reads : Reads .stop n ns
  starts : Starts .bracket n
  exp : Derives false [.exp] ns
  literal : ∀ lit, name = .string lit → n = quote lit ∧ ns = [.literal lit]

theorem exists_nameReads (hs : s.Legible false known) {name : Expr} (hname : name.isLegible known = true) {n : String}
    (hn : (expr s name).result = .ok n) : ∃ ns, NameReads name n ns := by
  by_cases hlit : ∃ lit, name = .string lit
  · obtain ⟨lit, rfl⟩ := hlit
    obtain rfl := Except.ok.inj hn
    have clean : '\r' ∉ lit.toList := by simpa [Expr.isLegible, isLegibleText] using hname
    have literal : Derives false [.literal] [.literal lit] := .token rfl .nil
    exact ⟨[.literal lit], (reads_quote clean).narrow fun _ _ => rfl, starts_quote lit,
      literal.of_isInstance (by decide), fun _ h => Expr.string.inj h ▸ ⟨rfl, rfl⟩⟩
  · have phrase := (expression_yields (bodiesLegal_body hs) name hname).result n hn
    obtain ⟨ns, hreads, hform⟩ := phrase.exp
    exact ⟨ns, hreads, phrase.starts, hform, fun lit h => absurd ⟨lit, h⟩ hlit⟩

/-- A slot is read as the object and the key in it. -/
theorem callee_reads {name : Expr} {n : String} {ns : List Token} (h : NameReads name n ns) : ∃ slot,
    Reads .stop (calleeText name n) (.word "__evobj" :: slot) ∧ ∀ rest, key? (slot ++ rest) = some (ns, rest) := by
  have bracketed := (bracketed_reads h.reads h.starts).narrow (G := .stop) fun _ _ => rfl
  have key : ∀ rest, key? ((.symbol "[" :: (ns ++ [.symbol "]"])) ++ rest) = some (ns, rest) := by
    intro rest
    rw [List.cons_append, List.append_assoc, key?, List.singleton_append]
    exact enclosed?_exp h.exp (by decide) rest
  cases name with
  | string lit =>
    obtain ⟨rfl, rfl⟩ := h.literal lit rfl
    rw [calleeText, field]
    split_ifs with hid
    · exact ⟨_, field_reads (isIdentifier_iff.mp hid).1 (starts_name (isPlainName_of_isIdentifier hid)), fun _ => rfl⟩
    · exact ⟨_, bracketed, key⟩
  | _ => exact ⟨_, bracketed, key⟩

/-- A call is read as an invocation that has its name in both places. -/
theorem invocation_read {name : Expr} {n : String} {ns : List Token} (h : NameReads name n ns) :
    (tokens? (s.margin ++ invocationText (calleeText name n) n ++ " -- call " ++ oneLine n ++ "\n").toList).bind
      invocation? = some ⟨ns, ns⟩ := by
  obtain ⟨slot, hslot, hkey⟩ := callee_reads h
  obtain ⟨ms, hmargin, hms⟩ : Spelled false .any s.margin [] := .margin s
  obtain ⟨es, hend, hes⟩ : Spelled false .any (") -- call " ++ (oneLine n ++ "\n")) [")"] :=
    callEnd_spelled h.reads.clean
  obtain ⟨closer, rfl, hcloser⟩ := hes.eq_singleton rfl
  obtain rfl := token_eq_of_shape hcloser (by decide)
  cases hms
  have front : Reads .any ";(" [.symbol ";", .symbol "("] := .checked (by decide)
  have middle : Reads .any " or __evobj.any)(__evobj, __actor, event, " telling := .checked (by decide)
  have named := h.reads.started hend ((Starts.fixed (by decide)).append _)
  have called := hslot.started (middle.append named) ((Starts.fixed (by decide)).append _)
  have whole := hmargin.append (front.append called)
  have remark := invocationText_remark (calleeText name n) n (oneLine n ++ "\n")
  simp only [String.append_assoc] at remark whole ⊢
  rw [remark]
  rw [whole.tokens? rfl, Option.bind_some, ← invocation?_eq hkey h.exp]
  simp [dispatching]

/-! ### How often a name is evaluated -/

/-- A call compiles where its name does. The statement has the text of the name in two places unless it is a literal,
and a reader finds the name as the key of the slot and again as what the handler is told. So the two are the same value
exactly where evaluating the name a second time makes no difference, as it is with literals. -/
theorem call_evaluations (c : Context) (name : Expr) :
    (∀ t, (c.run (command · (.call name))).1 = .ok t ↔ ∃ n, (expr c.scope name).result = .ok n ∧
      t = c.scope.margin ++ invocationText (calleeText name n) n ++ " -- call " ++ oneLine n ++ "\n") ∧
    ((∀ lit, name ≠ .string lit) → ∀ n,
      ¬ ∃! place, place ++ n.toList <+: (invocationText (calleeText name n) n).toList) ∧
    ∀ known, c.scope.Legible false known → name.isLegible known = true →
      ∀ t, (c.run (command · (.call name))).1 = .ok t → ∃ n ns, (expr c.scope name).result = .ok n ∧
        tokens? n.toList = some ns ∧ (∀ lit, name = .string lit → ns = [.literal lit]) ∧
        (tokens? t.toList).bind invocation? = some ⟨ns, ns⟩ ∧
        ∀ (σ α : Type) (eval : List Token → σ → α × σ), Invocation.Agrees eval ⟨ns, ns⟩ ↔
          ∀ state, (eval ns (eval ns state).2).1 = (eval ns state).1 := by
  refine ⟨fun t => call_text, fun hname n => ?_, fun known hs hlegible t ht => ?_⟩
  · have callee : calleeText name n = "__evobj[" ++ n ++ "]" := by
      cases name with
      | string lit => exact absurd rfl (hname lit)
      | _ => rfl
    have twice := not_once ";(__evobj[".toList n.toList "] or __evobj.any)(__evobj, __actor, event, ".toList
      ")".toList (by decide)
    have opener : ";(__evobj[" = ";(" ++ "__evobj[" := by decide
    have middle : "] or __evobj.any)(__evobj, __actor, event, " =
      "]" ++ " or __evobj.any)(__evobj, __actor, event, " := by decide
    rw [opener, middle] at twice
    rw [callee, invocationText]
    simpa only [String.toList_append, List.append_assoc] using twice
  · obtain ⟨n, hn, rfl⟩ := call_text.mp ht
    obtain ⟨ns, reads⟩ := exists_nameReads hs hlegible hn
    exact ⟨n, ns, hn, reads.reads.tokens? rfl, fun lit h => (reads.literal lit h).2, invocation_read reads,
      fun σ α eval => .rfl⟩

/-- The name is drawn at random. -/
theorem call_evaluations_random :
    let c := Context.initial .standard
    let name : Expr := .value .random [.number (.integer 1), .number (.integer 6)]
    let t := "  ;(__evobj[__random(1, 6)] or __evobj.any)(__evobj, __actor, event, __random(1, 6)) " ++
      "-- call __random(1, 6)\n"
    (∀ lit, name ≠ .string lit) ∧ c.scope.Legible false [] ∧ name.isLegible [] = true ∧
      (c.run (command · (.call name))).1 = .ok t ∧
      (¬ ∃! place, place ++ "__random(1, 6)".toList <+:
        (invocationText (calleeText name "__random(1, 6)") "__random(1, 6)").toList) ∧
      ∃ ns, tokens? "__random(1, 6)".toList = some ns ∧ (tokens? t.toList).bind invocation? = some ⟨ns, ns⟩ := by
  intro c name t
  have other : ∀ lit, name ≠ .string lit := fun _ h => nomatch h
  have legible : c.scope.Legible false [] := Scope.legible_of_empty rfl rfl fun _ h => nomatch h
  have spelled : (expr c.scope name).result = .ok "__random(1, 6)" := by decide +kernel
  have compiled : (c.run (command · (.call name))).1 = .ok t := by decide +kernel
  obtain ⟨-, twice, reads⟩ := call_evaluations c name
  obtain ⟨n, ns, hn, htokens, -, hinvocation, -⟩ := reads [] legible rfl t compiled
  obtain rfl := Except.ok.inj (hn.symm.trans spelled)
  exact ⟨other, legible, rfl, compiled, twice other _, ns, htokens, hinvocation⟩

/-- The text of this name is not there once: where each evaluation draws the next number, the handler of the one is told
the next one. -/
theorem call_evaluations_drawn :
    let c := Context.initial .standard
    let name : Expr := .value .random [.number (.integer 1), .number (.integer 6)]
    let n := "__random(1, 6)"
    let code := ";(__evobj[__random(1, 6)] or __evobj.any)(__evobj, __actor, event, __random(1, 6))"
    (expr c.scope name).result = .ok n ∧
      (c.run (command · (.call name))).1 = .ok (c.scope.margin ++ code ++ " -- call " ++ oneLine n ++ "\n") ∧
      (¬ ∃! place, place ++ n.toList <+: code.toList) ∧
      ∃ i, (tokens? code.toList).bind invocation? = some i ∧
        i.values (fun _ (drawn : Nat) => (drawn, drawn + 1)) 1 = (1, 2) := by
  intro c name n code
  have spelled : (expr c.scope name).result = .ok n := by decide +kernel
  have compiled : (c.run (command · (.call name))).1 =
    .ok (c.scope.margin ++ code ++ " -- call " ++ oneLine n ++ "\n") := by decide +kernel
  have twice := not_once ";(__evobj[".toList n.toList "] or __evobj.any)(__evobj, __actor, event, ".toList
    ")".toList (by decide)
  let ns : List Token := [.word "__random", .symbol "(", .numeral "1", .symbol ",", .numeral "6", .symbol ")"]
  let key : List Token := .word "__evobj" :: .symbol "[" :: (ns ++ [.symbol "]"])
  have reads : Reads .any code (.symbol ";" :: .symbol "(" :: (key ++ telling ++ ns ++ [.symbol ")"])) :=
    .checked (by decide +kernel)
  refine ⟨spelled, compiled, ?_, ⟨ns, ns⟩, ?_, rfl⟩
  · have split : code.toList = ";(__evobj[".toList ++ n.toList ++
        "] or __evobj.any)(__evobj, __actor, event, ".toList ++ n.toList ++ ")".toList := by decide +kernel
    rwa [split]
  · rw [reads.tokens? rfl]
    decide +kernel

end Compile
end GameScript
