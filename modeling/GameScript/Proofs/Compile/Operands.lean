import GameScript.Proofs.Compile.CallText
import GameScript.Proofs.Compile.Declarations

/-! The text of every legible expression, as a reader of the output finds it: one operand, except that the pieces of
a text are put together. The blocks in it are taken to be lists of statements. -/

namespace GameScript

open Lua Compile

variable {ordered : Bool} {known : List Nat}

/-! ### What outcomes yield -/

namespace Outcome

variable {α β : Type} {D : String → Prop} {P : α → Prop} {Q : β → Prop}

/-- If there is a result, it is such a one, and so is each declaration that is asked for on the way. -/
structure Yields (D : String → Prop) (P : α → Prop) (x : Outcome α) : Prop where
  result : ∀ a, x.result = .ok a → P a
  declares : ∀ d, Entry.declare d ∈ x.log → D d

namespace Yields

theorem pure {a : α} (h : P a) : Yields D P (Pure.pure a : Outcome α) :=
  ⟨fun _ hb => Except.ok.inj hb ▸ h, fun _ hd => nomatch hd⟩

theorem fail (e : CompileError) : Yields D P (Outcome.fail e : Outcome α) :=
  ⟨fun _ hb => (nomatch hb), fun _ hd => nomatch hd⟩

theorem bind {x : Outcome α} {f : α → Outcome β} (hx : Yields D P x) (hf : ∀ a, P a → Yields D Q (f a)) :
    Yields D Q (x >>= f) := by
  obtain ⟨log, e | a⟩ := x
  · exact ⟨fun _ hb => (nomatch hb), hx.declares⟩
  · have rest := hf a (hx.result a rfl)
    exact ⟨rest.result, fun d hd => (List.mem_append.mp hd).elim (hx.declares d) (rest.declares d)⟩

theorem map {x : Outcome α} {f : α → β} (hx : Yields D P x) (hf : ∀ a, P a → Q (f a)) : Yields D Q (f <$> x) :=
  hx.bind fun a ha => .pure (hf a ha)

theorem note (d : Diagnostic) : Yields D (fun _ => True) (Outcome.note d) :=
  ⟨fun _ _ => trivial, fun _ hd => nomatch List.mem_singleton.mp hd⟩

theorem use (name : String) : Yields D (fun _ => True) (Outcome.entry (.use name)) :=
  ⟨fun _ _ => trivial, fun _ hd => nomatch List.mem_singleton.mp hd⟩

theorem declare {d : String} (h : D d) : Yields D (fun _ => True) (Outcome.declare d) :=
  ⟨fun _ _ => trivial, fun _ hd => Entry.declare.inj (List.mem_singleton.mp hd) ▸ h⟩

theorem mono {x : Outcome α} {P' : α → Prop} (hx : Yields D P x) (h : ∀ a, P a → P' a) : Yields D P' x :=
  ⟨fun a ha => h a (hx.result a ha), hx.declares⟩

/-- A function has its declarations in its own text. -/
theorem functionScope {x : Outcome α} (hx : Yields D P x) :
    Yields D (fun p => P p.1 ∧ ∀ d ∈ p.2, D d) x.functionScope := by
  constructor
  · intro p hp
    obtain ⟨log, e | a⟩ := x
    · cases hp
    · obtain rfl := Except.ok.inj hp
      refine ⟨hx.result a rfl, fun d hd => hx.declares d ?_⟩
      exact mem_declarations.mp hd
  · intro d hd
    exact hx.declares d (List.mem_of_mem_filter hd)

end Yields
end Outcome

open Outcome

/-- The bodies of the known blocks are lists of statements, wherever a block may stand. -/
def Compile.BodiesLegal (ordered : Bool) (known : List Nat) (s : Scope) (bodies : BodyCompiler) : Prop :=
  ∀ (place : Place), ∀ index ∈ known, Yields (IsDeclaration ordered) (fun t => Spelled ordered .any t [.stats])
    (bodies (place.scope s) place.isFunction index)

/-! ### Names and functions -/

namespace Compile

variable {bodies : BodyCompiler} {s : Scope}

theorem readVariable_yields {name : String} (h : isLegibleName name = true) :
    Yields (IsDeclaration ordered) (Phrase ordered 0) (readVariable name) := by
  rw [readVariable_eq]
  cases ha : Accessor.ofName? name with
  | some a =>
    refine ⟨fun t ht => Except.ok.inj ht ▸ accessor_phrase ha, fun d hd => ?_⟩
    obtain ⟨d', hd', heq⟩ := List.mem_map.mp hd
    obtain rfl := Entry.declare.inj heq
    exact accessor_declaration ha (Option.mem_toList.mp hd')
  | none =>
    have reserved : isReservedName name = false := by rw [isReservedName, ha]; rfl
    rw [isLegibleName, reserved, Bool.false_or] at h
    dsimp only
    split_ifs at h ⊢ with hdot
    · exact .pure (path_text h).phrase
    · exact (Yields.use name).bind fun _ _ => .pure (variableRef_text h).phrase

theorem writeTarget_yields {name : String} (h : isLegibleName name = true) :
    Yields (IsDeclaration ordered) (NameText ordered) (writeTarget name) := by
  rw [writeTarget_eq]
  by_cases hreserved : isReservedName name
  · rw [if_pos hreserved]
    exact .fail _
  · rw [if_neg hreserved]
    rw [isLegibleName, Bool.eq_false_iff.mpr hreserved, Bool.false_or] at h
    split_ifs at h ⊢ with hdot
    · exact .pure (path_text h)
    · exact (Yields.use name).bind fun _ _ => .pure (variableRef_text h)

/-- A block that is handed over is a function. -/
theorem callback_yields (h : BodiesLegal ordered known s bodies) {index : Nat} (hindex : index ∈ known) :
    Yields (IsDeclaration ordered) (Phrase ordered 0) (callback bodies s index) := by
  refine (h .callback index hindex).bind fun body hbody => .pure ?_
  have head : Spelled ordered .any ("function(" ++ handlerParameters ++ ")\n")
      ["function", "(", .name, ",", .name, ",", .name, ",", .name, ")"] := .checked (by decide)
  have last : Spelled ordered .stop "  end" ["end"] := .fixed (by decide)
  have whole := ((head.append hbody).append (.blanks (2 * s.indent))).append last
  have starts : Starts .bracket ("function(" ++ handlerParameters ++ ")\n") := .checked (by decide)
  exact ⟨whole.as (by decide), ((starts.append _).append _).append _⟩

/-! ### Expressions -/

/-- Pieces are put together with as many operators as there are places between them. -/
theorem concatenation_phrase : {ts : List String} → (∀ t ∈ ts, Phrase ordered 0 t) →
    Phrase ordered (ts.length - 1) (concatenation ts)
  | [], _ => .fixed (by decide)
  | [t], h => by
    show Phrase ordered 0 (" .. ".intercalate [t])
    rw [String.intercalate_singleton]
    exact h t List.mem_cons_self
  | t :: u :: us, h => by
    obtain ⟨ht, hus⟩ := List.forall_mem_cons.mp h
    have rest : Phrase ordered us.length (" .. ".intercalate (u :: us)) := concatenation_phrase hus
    have operator : Spelled ordered .any " .. " [".."] := .fixed (by decide)
    show Phrase ordered (us.length + 1) (" .. ".intercalate (t :: u :: us))
    rw [String.intercalate_cons_cons]
    exact ⟨(ht.spelled.followed operator (.fixed (by decide))).append rest.spelled,
      (ht.starts.append _).append _⟩

end Compile

/-- The places between the pieces of a text; all other expressions are one operand. -/
def Expr.joints : Expr → Nat
  | .format parts => parts.length - 1
  | _ => 0

namespace Compile

variable {bodies : BodyCompiler} {s : Scope}

/-- A tile of the room is found by its place. -/
theorem roomTile_spelled {F : Follow} {x y last : String} {form : List Symbol} (hx : IsPhrase ordered x)
    (hy : IsPhrase ordered y) (hlast : Spelled ordered F last form) (hstarts : Starts .stop last) :
    Spelled ordered F ("__roomtiles[" ++ y ++ "][" ++ x ++ last)
      (.name :: "[" :: .exp :: "]" :: "[" :: .exp :: form) := by
  have front : Spelled ordered .bracket "__roomtiles[" [.name, "["] := .fixed (by decide)
  have middle : Spelled ordered .bracket "][" ["]", "["] := .fixed (by decide)
  have row := (front.followed hy.exp hy.starts).followed middle (.fixed (by decide))
  exact (row.followed hx.exp hx.starts).followed hlast hstarts

theorem roomTile_phrase {x y : String} (hx : IsPhrase ordered x) (hy : IsPhrase ordered y) :
    Phrase ordered 0 ("__roomtiles[" ++ y ++ "][" ++ x ++ "].name") := by
  have last : Spelled ordered .stop "].name" ["]", ".", .name] := .fixed (by decide)
  have starts : Starts .bracket "__roomtiles[" := .fixed (by decide)
  exact ⟨(roomTile_spelled hx hy last (.fixed (by decide))).as (by decide),
    (((starts.append _).append _).append _).append _⟩

theorem called_phrase {front t : String} (form : List Symbol) (hfront : Spelled ordered .any front form)
    (hstarts : Starts .bracket front) (ht : IsPhrase ordered t)
    (hform : isInstance [.operand] (form ++ [.exp, (")" : Symbol)]) = true) :
    Phrase ordered 0 (front ++ t ++ ")") := by
  have closer : Spelled ordered .any ")" [")"] := .fixed (by decide)
  have whole := hfront.append (ht.exp.followed closer (.fixed (by decide)))
  rw [← String.append_assoc] at whole
  exact .ofAny whole hform ((hstarts.append _).append _)

theorem embedded_phrase {t : String} (h : IsPhrase ordered t) :
    Phrase ordered 0 ("__pulp.__ex_embed(" ++ t ++ ")") :=
  called_phrase [.name, ".", .name, "("] (.fixed (by decide)) (.fixed (by decide)) h (by decide)

theorem piece_phrase {t : String} (h : IsPhrase ordered t) : Phrase ordered 0 ("__tostring(" ++ t ++ ")") :=
  called_phrase [.name, "("] (.fixed (by decide)) (.fixed (by decide)) h (by decide)

mutual

/-- An expression yields one operand, or the pieces of a text put together. -/
theorem expression_yields (h : BodiesLegal ordered known s bodies) : (e : Expr) → e.isLegible known = true →
    Yields (IsDeclaration ordered) (Phrase ordered e.joints) (expression bodies s e)
  | .string _, he => .pure (.quote he)
  | .number n, _ => .pure (.number n)
  | .bool true, _ | .bool false, _ | .nil, _ => .pure (.fixed (by decide))
  | .read _, he => readVariable_yields he
  | .tile id _, he => .pure (.tile id he)
  | .format parts, he => by
    refine (pieces_yield h parts he).map fun ts hts => ?_
    rw [Expr.joints, ← hts.1]
    exact concatenation_phrase hts.2
  | .embed inner, he => (expression_yields h inner he).bind fun _ ht => .pure (embedded_phrase ⟨_, ht⟩)
  | .nameOf args, he => by
    have each := arguments_yield h args he
    cases args with
    | nil => exact each.map fun _ ha => Call.value_phrase .name ha
    | cons e args =>
      cases e with
      | pair x y =>
        obtain ⟨hpair, -⟩ := Bool.and_eq_true_iff.mp he
        obtain ⟨hx, hy⟩ := Bool.and_eq_true_iff.mp hpair
        exact (expression_yields h x hx).bind fun _ htx => (expression_yields h y hy).bind fun _ hty =>
          .pure (roomTile_phrase ⟨_, htx⟩ ⟨_, hty⟩)
      | _ => exact each.map fun _ ha => Call.value_phrase .name ha
  | .value op args, he => (arguments_yield h args he).map fun _ ha => Call.value_phrase op ha
  | .block _, he => callback_yields h (List.contains_iff_mem.mp he)
  | .pair _ _, _ | .rect _, _ => (Yields.note _).bind fun _ _ => .pure (.unknown (by decide))
  | .unknown _, he => (Yields.note _).bind fun _ _ => .pure (.unknown he)

/-- Each piece of a text is one operand. -/
theorem pieces_yield (h : BodiesLegal ordered known s bodies) : (es : List Expr) → Expr.areLegible known es = true →
    Yields (IsDeclaration ordered) (fun ts => ts.length = es.length ∧ ∀ t ∈ ts, Phrase ordered 0 t)
      (pieces bodies s es)
  | [], _ => .pure ⟨rfl, fun _ ht => nomatch ht⟩
  | e :: es, he => by
    obtain ⟨he, hes⟩ := Bool.and_eq_true_iff.mp he
    have rest := pieces_yield h es hes
    have piece := expression_yields h e he
    cases e with
    | string t =>
      refine rest.bind fun ts hts => .pure ⟨congrArg (· + 1) hts.1, ?_⟩
      exact List.forall_mem_cons.mpr ⟨.quote he, hts.2⟩
    | _ =>
      refine piece.bind fun t ht => rest.bind fun ts hts => .pure ⟨congrArg (· + 1) hts.1, ?_⟩
      exact List.forall_mem_cons.mpr ⟨piece_phrase ⟨_, ht⟩, hts.2⟩

theorem arguments_yield (h : BodiesLegal ordered known s bodies) : (es : List Expr) →
    Expr.areLegible known es = true →
    Yields (IsDeclaration ordered) (fun args => ∀ a ∈ args, a.Phrased ordered) (arguments bodies s es)
  | [], _ => .pure fun _ ha => nomatch ha
  | e :: es, he => by
    obtain ⟨he, hes⟩ := Bool.and_eq_true_iff.mp he
    have rest := arguments_yield h es hes
    have argument := expression_yields h e he
    cases e with
    | pair x y =>
      obtain ⟨hx, hy⟩ := Bool.and_eq_true_iff.mp he
      refine (expression_yields h x hx).bind fun tx htx => (expression_yields h y hy).bind fun ty hty =>
        rest.bind fun args hargs => .pure (List.forall_mem_cons.mpr ⟨?_, hargs⟩)
      exact List.forall_mem_cons.mpr ⟨⟨_, htx⟩, List.forall_mem_singleton.mpr ⟨_, hty⟩⟩
    | rect parts =>
      exact (sides_yield h _ parts he).bind fun _ hts => rest.bind fun _ hargs =>
        .pure (List.forall_mem_cons.mpr ⟨hts, hargs⟩)
    | _ =>
      exact argument.bind fun _ ht => rest.bind fun _ hargs =>
        .pure (List.forall_mem_cons.mpr ⟨List.forall_mem_singleton.mpr ⟨_, ht⟩, hargs⟩)

theorem sides_yield (h : BodiesLegal ordered known s bodies) : (n : Nat) → (es : List Expr) →
    Expr.areLegible known es = true →
    Yields (IsDeclaration ordered) (fun ts => ∀ t ∈ ts, IsPhrase ordered t) (sides bodies s n es)
  | 0, [], _ | 0, _ :: _, _ | _ + 1, [], _ => .pure fun _ ht => nomatch ht
  | n + 1, e :: es, he => by
    obtain ⟨he, hes⟩ := Bool.and_eq_true_iff.mp he
    exact (expression_yields h e he).bind fun _ ht => (sides_yield h n es hes).bind fun _ hts =>
      .pure (List.forall_mem_cons.mpr ⟨⟨_, ht⟩, hts⟩)

end

end Compile
end GameScript
