import GameScript.Proofs.Compile.Statements
import GameScript.Proofs.Lua.Operation

/-! Compound assignments as a reader of the output takes them. The value of one is a single operand, except that the
pieces of a text are put together without brackets; behind an operator only the first piece is then combined with the
variable, so that the two spellings of the assignment store different values. -/

namespace GameScript

open Lua Compile

namespace Lua

/-- Operands that are put together are read one by one. -/
theorem operands?_concatenated : (n : Nat) → {ts : List Token} → Derives false (concatenated n) ts →
    ∃ p, operands? ts = some p ∧ p.2.map Prod.fst = List.replicate n ".."
  | 0, ts, h => by
    have alone := operands?_operand h []
    rw [List.append_nil] at alone
    exact ⟨(ts, []), alone, rfl⟩
  | n + 1, ts, h => by
    obtain ⟨first, us, rfl, hfirst, hus⟩ := Derives.cons_iff.mp h
    obtain ⟨sign, vs, rfl, hsign, hvs⟩ := Derives.cons_iff.mp hus
    obtain ⟨t, rfl, ht⟩ := hsign.eq_singleton rfl
    obtain ⟨p, hp, hrest⟩ := operands?_concatenated n hvs
    have operator : t.shape.operator? = some ".." := by rw [ht]; rfl
    refine ⟨(first, ("..", p.1) :: p.2), ?_, by rw [List.map_cons, hrest]; rfl⟩
    rw [operands?_operand hfirst _, List.singleton_append, operandsFrom_operator (hfirst.ne_nil rfl) operator, hp]
    rfl

namespace Operation

/-- More text behind text is put together with it on its right. -/
theorem foldl_push_concat : {ps : List (String × List Token)} → (∀ p ∈ ps, p.1 = "..") → (left right : Operation) →
    ps.foldl (fun e p => e.push p.1 p.2) (apply ".." left right) =
      apply ".." left (ps.foldl (fun e p => e.push p.1 p.2) right)
  | [], _, _, _ => rfl
  | p :: ps, h, left, right => by
    obtain ⟨hp, hps⟩ := List.forall_mem_cons.mp h
    rw [List.foldl_cons, List.foldl_cons, hp, push_apply_concat, foldl_push_concat hps]

/-- Arithmetic binds more strongly than putting text together: it only takes the first piece. -/
theorem ofOperands_arithmetic {operator : String} (hop : operator ∈ arithmetic) (place first piece : List Token)
    {ps : List (String × List Token)} (h : ∀ p ∈ ps, p.1 = "..") :
    ofOperands (place, (operator, first) :: ("..", piece) :: ps) =
      apply ".." (apply operator (operand place) (operand first)) (ofOperands (piece, ps)) := by
  have weaker : ∀ o ∈ arithmetic, ¬ (strength o).2 < (strength "..").1 := by decide
  have second : push ".." piece (apply operator (operand place) (operand first)) =
      apply ".." (apply operator (operand place) (operand first)) (operand piece) := if_neg (weaker operator hop)
  rw [ofOperands, List.foldl_cons, List.foldl_cons, push, second, foldl_push_concat h]
  rfl

end Operation

/-- What an assignment stores: a value, or what there is at the place combined with it. -/
def Operation.stored (place : List Token) : Option String → Operands → Operation
  | none, p => .ofOperands p
  | some operator, p => .apply operator (.operand place) (.ofOperands p)

/-- The operands have the same values, each at its place. -/
def SameOperands {α : Type} (meaning : List Token → α) (p p' : Operands) : Prop :=
  meaning p.1 = meaning p'.1 ∧ List.Forall₂ (fun q q' => meaning q.2 = meaning q'.2) p.2 p'.2

/-- Behind a combined assignment and behind an operator the same operands come to the same value, whatever they and
the operators mean, exactly where there is a single one. -/
theorem value_eq_iff {operator : String} (hop : operator ∈ arithmetic) (place : List Token) {p p' : Operands} {n : Nat}
    (hp : p.2.map Prod.fst = List.replicate n "..") (hp' : p'.2.map Prod.fst = List.replicate n "..") :
    (∀ (α : Type) (meaning : List Token → α) (binary : String → α → α → α), SameOperands meaning p p' →
      (Operation.apply operator (.operand place) (.ofOperands p)).value meaning binary =
        (Operation.ofOperands (place, (operator, p'.1) :: p'.2)).value meaning binary) ↔ n = 0 := by
  obtain ⟨first, ps⟩ := p
  obtain ⟨first', ps'⟩ := p'
  constructor
  · intro h
    by_contra hn
    have concat : ∀ q ∈ ps', q.1 = ".." := fun q hq =>
      List.eq_of_mem_replicate (hp' ▸ List.mem_map_of_mem hq)
    have lengths : ps.length = ps'.length := by
      rw [← List.length_map Prod.fst, hp, ← hp', List.length_map]
    match ps' with
    | [] => exact hn (List.length_replicate.symm.trans (congrArg List.length hp').symm)
    | (o, piece) :: ps' =>
      obtain ⟨ho, hps'⟩ := List.forall_mem_cons.mp concat
      obtain rfl : o = ".." := ho
      -- what stands at the root of each reading tells the two apart
      have roots := h String (fun _ => "") (fun o _ _ => o)
        ⟨rfl, List.forall₂_iff_get.mpr ⟨lengths, fun _ _ _ => rfl⟩⟩
      rw [Operation.ofOperands_arithmetic hop place first' piece hps'] at roots
      have differ : ∀ o ∈ arithmetic, o ≠ ".." := by decide
      exact differ operator hop roots
  · rintro rfl α meaning binary ⟨hfirst, -⟩
    obtain rfl := List.map_eq_nil_iff.mp hp
    obtain rfl := List.map_eq_nil_iff.mp hp'
    exact congrArg (binary operator (meaning place)) hfirst

end Lua

namespace Compile

variable {ordered : Bool} {known : List Nat} {s : Scope}

/-! ### Texts of assignments -/

theorem value_operands {joints : Nat} {v : String} (h : Phrase false joints v) : ∃ vs p, Reads .stop v vs ∧
    operands? vs = some p ∧ p.2.map Prod.fst = List.replicate joints ".." := by
  obtain ⟨vs, hreads, hform⟩ := h.spelled
  obtain ⟨p, hp, hrest⟩ := operands?_concatenated joints hform
  exact ⟨vs, p, hreads, hp, hrest⟩

/-- An operator in the two ways that it is written in. -/
theorem operator_reads {operator : String} (hop : operator ∈ arithmetic) :
    (∃ t, Reads .any (" " ++ operator ++ "= ") [t] ∧ t.shape.storing? = some (some operator)) ∧
      ∃ t, Reads .any (" " ++ operator ++ " ") [t] ∧ t.shape.operator? = some operator := by
  have each : ∀ operator ∈ arithmetic,
      (isSpelled .any (" " ++ operator ++ "= ").toList [.fixed (operator ++ "=")] &&
        isSpelled .any (" " ++ operator ++ " ").toList [.fixed operator] &&
        (Symbol.fixed (operator ++ "=")).storing? == some (some operator) &&
        (Symbol.fixed operator).operator? == some operator) = true := by decide
  have here := each operator hop
  simp only [Bool.and_eq_true, beq_iff_eq] at here
  obtain ⟨⟨⟨hwritten, hbinary⟩, hstoring⟩, hoperator⟩ := here
  obtain ⟨ts, hreads, hform⟩ : Spelled false .any _ _ := .checked hwritten
  obtain ⟨us, hreads', hform'⟩ : Spelled false .any _ _ := .checked hbinary
  obtain ⟨t, rfl, ht⟩ := hform.eq_singleton rfl
  obtain ⟨u, rfl, hu⟩ := hform'.eq_singleton rfl
  exact ⟨⟨t, hreads, ht ▸ hstoring⟩, ⟨u, hreads', hu ▸ hoperator⟩⟩

section

variable {target v : String} {place vs : List Token} {p : Operands}

/-- A place, the sign of an assignment and a value are read as an assignment. -/
theorem assignment_reads {sign : String} {w : Token} {o : Option String} (hplace : Reads .stop target place)
    (hform : Derives false [.target] place) (hsign : Reads .any sign [w]) (hstarts : Starts .stop sign)
    (hw : w.shape.storing? = some o) (hv : Reads .stop v vs) (hp : operands? vs = some p) :
    ∃ ts, Reads .stop (target ++ sign ++ v) ts ∧ assignment? ts = some (place, Operation.stored place o p) := by
  have quiet : behind false Symbol.inOperand (place.map Token.shape) [] = some [] :=
    hform.behind grounded_inOperand rfl
  refine ⟨place ++ [w] ++ vs, (hplace.started hsign hstarts).append hv, ?_⟩
  rw [List.append_assoc, assignment?, assignmentFrom_append quiet, List.nil_append, List.singleton_append,
    assignmentFrom]
  cases o <;> simp only [List.isEmpty_nil, if_true, hw, hp, Option.map_some, Operation.stored]

/-- A place is one more operand in front of a value. -/
theorem combined_reads {operator : String} {b : Token} (hplace : Reads .stop target place)
    (hform : Derives false [.target] place) (hbinary : Reads .any (" " ++ operator ++ " ") [b])
    (hb : b.shape.operator? = some operator) (hv : Reads .stop v vs) (hp : operands? vs = some p) :
    ∃ us, Reads .stop (target ++ (" " ++ operator ++ " ") ++ v) us ∧
      operands? us = some (place, (operator, p.1) :: p.2) := by
  have quiet : behind false Symbol.inOperand (place.map Token.shape) [] = some [] :=
    hform.behind grounded_inOperand rfl
  have blank : Starts .stop (" " ++ operator ++ " ") := (Starts.fixed (by decide)).append _ |>.append _
  refine ⟨place ++ [b] ++ vs, (hplace.started hbinary blank).append hv, ?_⟩
  rw [List.append_assoc, operands?, operandsFrom_append quiet, List.nil_append, List.singleton_append,
    operandsFrom_operator (hform.ne_nil rfl) hb, hp, Option.map_some]

theorem equals_reads : Reads .any " = " [.symbol "="] := .checked (by decide)

/-- How the two spellings of an assignment are read: the place is the same, and the value is combined with it as a
whole or operand by operand. -/
theorem compound_assignments {operator : String} (hplace : Reads .stop target place)
    (hform : Derives false [.target] place) (hop : operator ∈ arithmetic) (hv : Reads .stop v vs)
    (hp : operands? vs = some p) :
    (∃ ts, Reads .stop (compound (s.spelling true) target operator v) ts ∧
        assignment? ts = some (place, .apply operator (.operand place) (.ofOperands p))) ∧
      ∃ ts, Reads .stop (compound (s.spelling false) target operator v) ts ∧
        assignment? ts = some (place, .ofOperands (place, (operator, p.1) :: p.2)) := by
  obtain ⟨⟨w, hwritten, hw⟩, b, hbinary, hb⟩ := operator_reads hop
  have blank : Starts .stop (" " ++ operator ++ "= ") := (Starts.fixed (by decide)).append _ |>.append _
  constructor
  · have whole := assignment_reads hplace hform hwritten blank hw hv hp
    simp only [← String.append_assoc] at whole
    exact whole
  · obtain ⟨us, hus, hcombined⟩ := combined_reads hplace hform hbinary hb hv hp
    have whole := assignment_reads hplace hform equals_reads (.fixed (by decide)) rfl hus hcombined
    simp only [← String.append_assoc] at whole
    exact whole

end

/-- A legible scope is so in both spellings. -/
theorem legible_spelling (hs : s.Legible ordered known) (relative : Bool) :
    (s.spelling relative).Legible ordered known := ⟨hs.targets, hs.tiles, hs.commands, hs.chains⟩

end Compile

/-- The places between the pieces of the value that a command stores. -/
def Command.joints : Command → Nat
  | .assign _ _ value => value.joints
  | _ => 0

theorem Command.Combines.mem_arithmetic {c : Command} {target operator : String} (h : c.Combines target operator) :
    operator ∈ arithmetic := by
  cases h with
  | assign hop => exact Compile.mem_arithmetic hop
  | increment | decrement => decide

namespace Compile

variable {known : List Nat} {s : Scope}

/-- What a command combines its variable with, and how it is written. -/
theorem command_compound {c : Command} {target operator : String} (hs : s.Legible false known)
    (hc : c.isLegible known = true) (hcombines : c.Combines target operator) {relative : Bool} {t : String}
    (ht : (command (s.spelling relative) c).result = .ok t) : ∃ name v, (writeTarget target).result = .ok name ∧
      NameText false name ∧ Phrase false c.joints v ∧
      t = s.margin ++ compound (s.spelling relative) name operator v ++ "\n" := by
  have bodies := bodiesLegal_body (legible_spelling hs relative)
  obtain ⟨line, hline, ht⟩ := Outcome.result_bind_eq_ok_iff.mp ht
  have one : ∀ name : String, isLegibleName target = true → (writeTarget target).result = .ok name →
      NameText false name := fun name hlegible hname => (writeTarget_yields hlegible).result name hname
  cases hcombines with
  | @assign _ _ op value hop =>
    obtain ⟨htarget, hvalue⟩ := Bool.and_eq_true_iff.mp hc
    obtain ⟨u, hu, hsome⟩ := Outcome.result_bind_eq_ok_iff.mp hline
    obtain ⟨name, hname, hu⟩ := Outcome.result_bind_eq_ok_iff.mp hu
    obtain ⟨v, hv, hu⟩ := Outcome.result_bind_eq_ok_iff.mp hu
    simp only [hop] at hu
    cases hsome
    cases hu
    cases ht
    exact ⟨name, v, hname, one name htarget hname, (expression_yields bodies value hvalue).result v hv, rfl⟩
  | increment | decrement =>
    obtain ⟨u, hu, hsome⟩ := Outcome.result_bind_eq_ok_iff.mp hline
    obtain ⟨name, hname, hu⟩ := Outcome.result_bind_eq_ok_iff.mp hu
    cases hsome
    cases hu
    cases ht
    exact ⟨name, "1", hname, one name hc hname, .fixed (by decide), rfl⟩

/-- A line at a margin is read as it is. -/
theorem tokens?_line (s : Scope) {u : String} {ts : List Token} (h : Reads .stop u ts) :
    tokens? (s.margin ++ u ++ "\n").toList = some ts := by
  obtain ⟨ms, hmargin, hms⟩ : Spelled false .any s.margin [] := .margin s
  obtain ⟨ns, hbreak, hns⟩ : Spelled false .any "\n" [] := .fixed (by decide)
  cases hms
  cases hns
  have whole := (hmargin.append h).started hbreak (.fixed (by decide))
  rw [List.nil_append, List.append_nil] at whole
  exact whole.tokens? rfl

/-- Both spellings of a command, as they are read. -/
theorem command_assignments {c : Command} {target operator t t' : String} (hs : s.Legible false known)
    (hc : c.isLegible known = true) (hcombines : c.Combines target operator)
    (ht : (command (s.spelling true) c).result = .ok t) (ht' : (command (s.spelling false) c).result = .ok t') :
    ∃ (place : List Token) (p p' : Operands),
      (tokens? t.toList).bind assignment? = some (place, .apply operator (.operand place) (.ofOperands p)) ∧
      (tokens? t'.toList).bind assignment? = some (place, .ofOperands (place, (operator, p'.1) :: p'.2)) ∧
      p.2.map Prod.fst = List.replicate c.joints ".." ∧ p'.2.map Prod.fst = List.replicate c.joints ".." := by
  obtain ⟨name, v, hname, hplace, hv, rfl⟩ := command_compound hs hc hcombines ht
  obtain ⟨name', v', hname', -, hv', rfl⟩ := command_compound hs hc hcombines ht'
  obtain rfl : name = name' := Except.ok.inj (hname.symm.trans hname')
  have hop : operator ∈ arithmetic := hcombines.mem_arithmetic
  obtain ⟨place, hplace, hform⟩ := hplace.target
  obtain ⟨vs, p, hvs, hp, hrest⟩ := value_operands hv
  obtain ⟨vs', p', hvs', hp', hrest'⟩ := value_operands hv'
  obtain ⟨⟨ts, hts, written⟩, -⟩ := compound_assignments (s := s) hplace hform hop hvs hp
  obtain ⟨-, ts', hts', spelled⟩ := compound_assignments (s := s) hplace hform hop hvs' hp'
  refine ⟨place, p, p', ?_, ?_, hrest, hrest'⟩
  · rw [tokens?_line s hts, Option.bind_some, written]
  · rw [tokens?_line s hts', Option.bind_some, spelled]

/-- The value of a compound assignment is as many operands as its text has pieces, which are put together without
brackets; everything else is a single operand. The two spellings of the assignment store the same value, whatever
operands and operators mean, exactly where it is a single one. -/
theorem compound_value {known : List Nat} {s : Scope} (hs : s.Legible false known) :
    (∀ (e : Expr) (v : String), e.isLegible known = true → (expr s e).result = .ok v →
      ∃ vs p, tokens? v.toList = some vs ∧ operands? vs = some p ∧ p.2.map Prod.fst = List.replicate e.joints "..") ∧
    ∀ (c : Command) (target operator t t' : String), c.isLegible known = true → c.Combines target operator →
      (command (s.spelling true) c).result = .ok t → (command (s.spelling false) c).result = .ok t' →
      ∃ (place : List Token) (p p' : Operands),
        (tokens? t.toList).bind assignment? = some (place, .apply operator (.operand place) (.ofOperands p)) ∧
        (tokens? t'.toList).bind assignment? = some (place, .ofOperands (place, (operator, p'.1) :: p'.2)) ∧
        p.2.map Prod.fst = List.replicate c.joints ".." ∧ p'.2.map Prod.fst = List.replicate c.joints ".." ∧
        ((∀ (α : Type) (meaning : List Token → α) (binary : String → α → α → α), SameOperands meaning p p' →
          (Operation.apply operator (.operand place) (.ofOperands p)).value meaning binary =
            (Operation.ofOperands (place, (operator, p'.1) :: p'.2)).value meaning binary) ↔ c.joints = 0) := by
  refine ⟨fun e v he hv => ?_, fun c target operator t t' hc hcombines ht ht' => ?_⟩
  · obtain ⟨vs, p, hvs, hp, hrest⟩ := value_operands ((expression_yields (bodiesLegal_body hs) e he).result v hv)
    exact ⟨vs, p, hvs.tokens? rfl, hp, hrest⟩
  · obtain ⟨place, p, p', written, spelled, hp, hp'⟩ := command_assignments hs hc hcombines ht ht'
    have hop : operator ∈ arithmetic := hcombines.mem_arithmetic
    exact ⟨place, p, p', written, spelled, hp, hp', value_eq_iff hop place hp hp'⟩

/-- A value that is a call. -/
theorem compound_value_floor :
    let c : Command := .assign "x" .add (.value .floor [.read "y"])
    let s := Scope.initial .standard
    (command (s.spelling true) c).result = .ok "  x += __floor(y)\n" ∧
    (command (s.spelling false) c).result = .ok "  x = x + __floor(y)\n" ∧
    (∃ vs p, tokens? "__floor(y)".toList = some vs ∧ operands? vs = some p ∧ p.2.map Prod.fst = []) ∧
    ∃ (place : List Token) (p p' : Operands),
      (tokens? "  x += __floor(y)\n".toList).bind assignment? =
        some (place, .apply "+" (.operand place) (.ofOperands p)) ∧
      (tokens? "  x = x + __floor(y)\n".toList).bind assignment? =
        some (place, .ofOperands (place, ("+", p'.1) :: p'.2)) ∧
      ∀ (α : Type) (meaning : List Token → α) (binary : String → α → α → α), SameOperands meaning p p' →
        (Operation.apply "+" (.operand place) (.ofOperands p)).value meaning binary =
          (Operation.ofOperands (place, ("+", p'.1) :: p'.2)).value meaning binary := by
  intro c s
  have legible : s.Legible false [] := Scope.legible_of_empty rfl rfl (by simp)
  obtain ⟨operand, stored⟩ := compound_value legible
  have written : (command (s.spelling true) c).result = .ok "  x += __floor(y)\n" := by rfl
  have spelled : (command (s.spelling false) c).result = .ok "  x = x + __floor(y)\n" := by rfl
  obtain ⟨place, p, p', hwritten, hspelled, -, -, same⟩ :=
    stored c "x" "+" _ _ (by decide) (.assign rfl) written spelled
  exact ⟨written, spelled, operand (.value .floor [.read "y"]) _ (by decide) (by rfl), place, p, p',
    hwritten, hspelled, same.mpr rfl⟩

/-- A value that is put together from two pieces: spelled out, the assignment adds the first one only. -/
theorem compound_value_pieces :
    let c : Command := .assign "x" .add (.format [.string "1", .read "y"])
    let s := Scope.initial .standard
    (command (s.spelling true) c).result = .ok "  x += \"1\" .. __tostring(y)\n" ∧
    (command (s.spelling false) c).result = .ok "  x = x + \"1\" .. __tostring(y)\n" ∧
    ∃ (place : List Token) (p p' : Operands),
      (tokens? "  x += \"1\" .. __tostring(y)\n".toList).bind assignment? =
        some (place, .apply "+" (.operand place) (.ofOperands p)) ∧
      (tokens? "  x = x + \"1\" .. __tostring(y)\n".toList).bind assignment? =
        some (place, .ofOperands (place, ("+", p'.1) :: p'.2)) ∧
      p.2.map Prod.fst = [".."] ∧ p'.2.map Prod.fst = [".."] ∧
      ¬ ∀ (α : Type) (meaning : List Token → α) (binary : String → α → α → α), SameOperands meaning p p' →
        (Operation.apply "+" (.operand place) (.ofOperands p)).value meaning binary =
          (Operation.ofOperands (place, ("+", p'.1) :: p'.2)).value meaning binary := by
  intro c s
  have legible : s.Legible false [] := Scope.legible_of_empty rfl rfl (by simp)
  have written : (command (s.spelling true) c).result = .ok "  x += \"1\" .. __tostring(y)\n" := by rfl
  have spelled : (command (s.spelling false) c).result = .ok "  x = x + \"1\" .. __tostring(y)\n" := by rfl
  obtain ⟨place, p, p', hwritten, hspelled, hp, hp'⟩ :=
    command_assignments legible (by decide) (.assign rfl) written spelled
  refine ⟨written, spelled, place, p, p', hwritten, hspelled, hp, hp', fun h => ?_⟩
  cases (value_eq_iff (by decide) place hp hp').mp h

end Compile
end GameScript
