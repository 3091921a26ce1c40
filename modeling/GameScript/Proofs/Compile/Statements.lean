import GameScript.Proofs.Compile.Operands
import GameScript.Proofs.Compile.Spelling

/-! The text of every legible command and of every known block, as a reader of the output finds it: a list of
statements. By induction on the levels of blocks in one another this holds of the bodies too. -/

namespace GameScript

open Lua Compile Outcome

variable {ordered : Bool} {known : List Nat}

/-! ### Lines -/

/-- A text that ends with its line is a list of statements. -/
def Lua.IsLine (ordered : Bool) (t : String) : Prop := Spelled ordered .any (t ++ "\n") [.stats]

/-- The end of a line may follow everything that an operand may be followed by. -/
theorem Lua.Spelled.ended {t : String} {form : List Symbol} (h : Spelled ordered .stop t form) :
    Spelled ordered .any (t ++ "\n") form := by
  have newline : Spelled ordered .any "\n" [] := .fixed (by decide)
  have whole := h.followed newline (.fixed (by decide))
  rwa [List.append_nil] at whole

theorem Lua.Spelled.line {t : String} {form : List Symbol} (h : Spelled ordered .stop t form)
    (hform : isInstance [.stats] form = true) : IsLine ordered t := h.ended.as hform

/-- A comment up to the end of its line, as a check that can be run. -/
def Lua.isRemark : List Char → Bool
  | '-' :: '-' :: c :: cs => c != '[' && !(c :: cs).any isLineBreak
  | _ => false

theorem Lua.Spelled.remark {t : String} (h : isRemark t.toList = true) : Spelled ordered .any (t ++ "\n") [] := by
  unfold isRemark at h
  split at h
  · next c cs heq =>
    simp only [Bool.and_eq_true, bne_iff_ne, Bool.not_eq_true'] at h
    exact .lineComment heq h.1 (isLineBreak_of_any h.2)
  · cases h

theorem Lua.Spelled.margin (s : Scope) : Spelled ordered .any s.margin [] := .blanks (2 * s.indent)

/-- A block that starts with a comment. -/
theorem Lua.Spelled.opened {t : String} (h : Spelled ordered .any t []) :
    Spelled ordered .any ("do " ++ t) ["do"] := by
  have key : Spelled ordered .any "do " ["do"] := .fixed (by decide)
  exact key.append h

/-- What a clause consists of. -/
def Clause.form : Clause → List Symbol
  | .elseIf _ _ => ["elseif", .exp, "then", .stats]
  | .otherwise _ => ["else", .stats]

/-- What a conditional consists of, in whatever order its clauses are. -/
def conditionalForm (clauses : List Clause) : List Symbol :=
  [("if" : Symbol), .exp, "then", .stats] ++ (clauses.flatMap Clause.form ++ [("end" : Symbol)])

namespace Compile

variable {bodies : BodyCompiler} {s : Scope}

/-! ### Comparisons -/

theorem comparison_yields (h : BodiesLegal ordered known s bodies) {c : Comparison}
    (hc : c.isLegible known = true) :
    Yields (IsDeclaration ordered) (fun t => Spelled ordered .stop t [.exp]) (comparison bodies s c) := by
  obtain ⟨op, left, right⟩ := c
  obtain ⟨hleft, hright⟩ := Bool.and_eq_true_iff.mp hc
  have operator : Spelled ordered .any (" " ++ op.symbol ++ " ") [.binop] := by
    have each : isSpelled .any (" " ++ op.symbol ++ " ").toList [.binop] = true := by cases op <;> decide
    exact .checked each
  have blank : Starts .stop (" " ++ op.symbol ++ " ") := (Starts.fixed (by decide)).append _ |>.append _
  have rest : ∀ l, IsPhrase ordered l → Yields (IsDeclaration ordered) (fun t => Spelled ordered .stop t [.exp])
      (do
        let right ← expression bodies s right
        return s!"{l} {op.symbol} {right}") := by
    intro l hl
    refine (expression_yields h right hright).bind fun r hr => .pure ?_
    have whole : Spelled ordered .stop _ [.exp] :=
      Call.hole_operations [.binop, .exp] hl (operator.append hr.exp) (blank.append _) (by decide)
    rw [← String.append_assoc, ← String.append_assoc, ← String.append_assoc] at whole
    exact whole
  cases left with
  | string name =>
    rw [comparison]
    dsimp only at hleft ⊢
    split_ifs at hleft ⊢
    · exact (readVariable_yields hleft).bind fun l hl => rest l ⟨_, hl⟩
    · exact rest _ ⟨_, .quote hleft⟩
  | _ => exact (expression_yields h _ hleft).bind fun l hl => rest l ⟨_, hl⟩

/-! ### Assignments -/

theorem compound_stat {target value : String} {operator : String} (ht : NameText ordered target)
    (hv : IsPhrase ordered value) (hop : operator ∈ arithmetic) :
    Spelled ordered .stop (compound s target operator value) [.stat] := by
  have written : Spelled ordered .any (" " ++ operator ++ "= ") [.compound] ∧
      Spelled ordered .any (" " ++ operator ++ " ") [.binop] := by
    have each : ∀ operator ∈ arithmetic, (isSpelled .any (" " ++ operator ++ "= ").toList [.compound] &&
        isSpelled .any (" " ++ operator ++ " ").toList [.binop]) = true := by decide
    obtain ⟨h1, h2⟩ := Bool.and_eq_true_iff.mp (each operator hop)
    exact ⟨.checked h1, .checked h2⟩
  have blank : ∀ t : String, Starts .stop (" " ++ operator ++ t) := fun t =>
    (Starts.fixed (by decide)).append _ |>.append _
  unfold compound
  split_ifs
  · have whole := (ht.target.followed written.1 (blank _)).append hv.exp
    rw [← String.append_assoc, ← String.append_assoc] at whole
    exact whole.as (by decide)
  · have equals : Spelled ordered .any " = " ["="] := .fixed (by decide)
    have value : Spelled ordered .stop _ [.exp] :=
      Call.hole_operations [.binop, .exp] ⟨_, ht.phrase⟩ (written.2.append hv.exp) ((blank _).append _) (by decide)
    have whole := (ht.target.followed equals (.fixed (by decide))).append value
    rw [← String.append_assoc, ← String.append_assoc, ← String.append_assoc, ← String.append_assoc] at whole
    exact whole.as (by decide)

theorem assignment_yields (h : BodiesLegal ordered known s bodies) {target : String} (op : AssignOp) {value : Expr}
    (htarget : isLegibleName target = true) (hvalue : value.isLegible known = true) :
    Yields (IsDeclaration ordered) (fun t => Spelled ordered .stop t [.stat])
      (assignment bodies s target op value) := by
  refine (writeTarget_yields htarget).bind fun t ht => (expression_yields h value hvalue).bind fun v hv => ?_
  cases hop : op.operator? with
  | none =>
    have equals : Spelled ordered .any " = " ["="] := .fixed (by decide)
    have whole := (ht.target.followed equals (.fixed (by decide))).append hv.exp
    exact .pure (whole.as (by decide))
  | some operator => exact .pure (compound_stat ht ⟨_, hv⟩ (mem_arithmetic hop))

theorem step_yields {target operator : String} (htarget : isLegibleName target = true)
    (hop : operator ∈ arithmetic) :
    Yields (IsDeclaration ordered) (fun t => Spelled ordered .stop t [.stat]) (step s target operator) :=
  (writeTarget_yields htarget).bind fun _ ht => .pure (compound_stat ht ⟨0, .fixed (by decide)⟩ hop)

/-! ### Conditionals and loops -/

/-- A condition and the block behind it. -/
theorem guarded_spelled {front head last body : String} {key after : List Symbol}
    (hfront : Spelled ordered .any front key) (hhead : Spelled ordered .stop head [.exp])
    (hlast : Spelled ordered .any last after) (hstarts : Starts .stop last)
    (hbody : Spelled ordered .any body [.stats]) :
    Spelled ordered .any (front ++ head ++ last ++ body) (key ++ .exp :: after ++ [.stats]) := by
  have whole := (hfront.append (hhead.followed hlast hstarts)).append hbody
  rwa [← String.append_assoc] at whole

theorem branches_yields (h : BodiesLegal ordered known s bodies) : {clauses : List Clause} →
    clauses.all (Clause.isLegible known) = true →
    Yields (IsDeclaration ordered) (fun t => Spelled ordered .any t (clauses.flatMap Clause.form))
      (branches bodies s clauses)
  | [], _ => .pure (.fixed (by decide))
  | .elseIf c block :: clauses, hall => by
    obtain ⟨hclause, hclauses⟩ := Bool.and_eq_true_iff.mp hall
    obtain ⟨hc, hblock⟩ := Bool.and_eq_true_iff.mp hclause
    refine (comparison_yields h hc).bind fun head hhead =>
      (h .branch block (List.contains_iff_mem.mp hblock)).bind fun body hbody =>
        (branches_yields h hclauses).bind fun rest hrest => .pure ?_
    have key : Spelled ordered .any "elseif " ["elseif"] := .fixed (by decide)
    have opener : Spelled ordered .any " then\n" ["then"] := .fixed (by decide)
    exact (guarded_spelled ((Spelled.margin s).append key) hhead opener (.fixed (by decide)) hbody).append hrest
  | .otherwise block :: clauses, hall => by
    obtain ⟨hblock, hclauses⟩ := Bool.and_eq_true_iff.mp hall
    refine (h .branch block (List.contains_iff_mem.mp hblock)).bind fun body hbody =>
      (branches_yields h hclauses).bind fun rest hrest => .pure ?_
    have opener : Spelled ordered .any "else\n" ["else"] := .fixed (by decide)
    exact (((Spelled.margin s).append opener).append hbody).append hrest

/-- A conditional as it is written: its clauses stand one behind the other, in whatever order they are. -/
theorem conditional_yields (h : BodiesLegal ordered known s bodies) {c : Comparison} {block : Nat}
    {clauses : List Clause} (hc : (Command.cond c block clauses).isLegible known = true) :
    Yields (IsDeclaration ordered)
      (fun t => Spelled ordered .stop t (conditionalForm clauses))
      (conditional bodies s c block clauses) := by
  obtain ⟨hhead, hclauses⟩ := Bool.and_eq_true_iff.mp hc
  obtain ⟨hc, hblock⟩ := Bool.and_eq_true_iff.mp hhead
  refine (comparison_yields h hc).bind fun head hhead =>
    (h .branch block (List.contains_iff_mem.mp hblock)).bind fun body hbody =>
      (branches_yields h hclauses).bind fun rest hrest => .pure ?_
  have key : Spelled ordered .any "if " ["if"] := .fixed (by decide)
  have opener : Spelled ordered .any " then\n" ["then"] := .fixed (by decide)
  have last : Spelled ordered .stop "end" ["end"] := .fixed (by decide)
  have whole := (((guarded_spelled key hhead opener (.fixed (by decide)) hbody).append hrest).append
    (Spelled.margin s)).append last
  rw [List.append_nil, List.append_assoc] at whole
  exact whole

theorem loop_yields (h : BodiesLegal ordered known s bodies) {c : Comparison} {block : Nat}
    (hc : (Command.loop c block).isLegible known = true) :
    Yields (IsDeclaration ordered) (fun t => Spelled ordered .stop t [.stat]) (loop bodies s c block) := by
  obtain ⟨hc, hblock⟩ := Bool.and_eq_true_iff.mp hc
  refine (comparison_yields h hc).bind fun head hhead =>
    (h .branch block (List.contains_iff_mem.mp hblock)).bind fun body hbody => .pure ?_
  have key : Spelled ordered .any "while " ["while"] := .fixed (by decide)
  have opener : Spelled ordered .any " do\n" ["do"] := .fixed (by decide)
  have last : Spelled ordered .stop "end" ["end"] := .fixed (by decide)
  have whole := ((guarded_spelled key hhead opener (.fixed (by decide)) hbody).append (Spelled.margin s)).append last
  exact whole.as (by decide)

end Compile

namespace Lua

/-- The clauses of a conditional and its end, where they are in order or nobody looks at that. -/
theorem derives_tail : (clauses : List Clause) → (ordered = true → isChain clauses = true) → {ts : List Token} →
    Derives ordered (clauses.flatMap Clause.form ++ [("end" : Symbol)]) ts → Derives ordered [.tail] ts
  | [], _, _, hts => hts.of_isInstance (by decide)
  | .elseIf _ _ :: clauses, h, _, hts => by
    have clause : isInstance [.tail] ["elseif", .exp, "then", .stats, .tail] = true := by decide
    rw [List.flatMap_cons, List.append_assoc] at hts
    obtain ⟨us, vs, rfl, hus, hvs⟩ := Derives.append_iff.mp hts
    have rest : Derives ordered [.tail] vs := derives_tail clauses h hvs
    exact (hus.append rest).of_isInstance clause
  | [.otherwise _], _, _, hts => by
    have last : isInstance [.tail] ["else", .stats, "end"] = true := by decide
    exact hts.of_isInstance last
  | .otherwise _ :: clause :: clauses, h, _, hts => by
    have relaxed : [("else" : Symbol), .block, .tail] ∈ Symbol.tail.forms ordered := by
      cases ordered with
      | true => cases h rfl
      | false => decide
    have front : isInstance ["else", .block] ["else", .stats] = true := by decide
    rw [List.flatMap_cons, List.append_assoc] at hts
    obtain ⟨us, vs, rfl, hus, hvs⟩ := Derives.append_iff.mp hts
    have rest : Derives ordered [.tail] vs := derives_tail (clause :: clauses) (fun heq => nomatch h heq) hvs
    rw [← List.append_nil (us ++ vs)]
    exact .expand relaxed ((hus.of_isInstance front).append rest) .nil

/-- A conditional is a statement, where its clauses are in order or nobody looks at that. -/
theorem derives_conditional {clauses : List Clause} (h : ordered = true → isChain clauses = true) {ts : List Token}
    (hts : Derives ordered (conditionalForm clauses) ts) : Derives ordered [.stat] ts := by
  obtain ⟨us, vs, rfl, hus, hvs⟩ := Derives.append_iff.mp hts
  exact (hus.append (derives_tail clauses h hvs)).of_isInstance (by decide)

end Lua

namespace Compile

variable {bodies : BodyCompiler} {s : Scope}

/-! ### Calls and objects -/

theorem indexed_phrase {front t : String} (form : List Symbol) (hfront : Spelled ordered .bracket front form)
    (hstarts : Starts .bracket front) (ht : IsPhrase ordered t)
    (hform : isInstance [.operand] (form ++ [.exp, ("]" : Symbol)]) = true) :
    Phrase ordered 0 (front ++ t ++ "]") := by
  have closer : Spelled ordered .any "]" ["]"] := .fixed (by decide)
  have whole := (hfront.followed ht.exp ht.starts).followed closer (.fixed (by decide))
  rw [List.append_assoc] at whole
  exact .ofAny whole hform ((hstarts.append _).append _)

theorem slot_phrase {t : String} (h : IsPhrase ordered t) : Phrase ordered 0 ("__evobj[" ++ t ++ "]") :=
  indexed_phrase [.name, "["] (.fixed (by decide)) (.fixed (by decide)) h (by decide)

theorem field_phrase {name : String} (h : isLegibleText name = true) :
    Phrase ordered 0 (field "__evobj" name) := by
  unfold field
  split_ifs with hname
  · have plain := isPlainName_of_isIdentifier hname
    have front : Spelled ordered .name ("__evobj" ++ ".") [.name, "."] := .checked (by decide)
    have starts : Starts .bracket ("__evobj" ++ ".") := .checked (by decide)
    exact ⟨(front.followed (Spelled.name plain) (starts_name plain)).as (by decide), starts.append _⟩
  · exact slot_phrase ⟨0, .quote h⟩

theorem callSlot_yields (h : BodiesLegal ordered known s bodies) {name : Expr} (hname : name.isLegible known = true) :
    Yields (IsDeclaration ordered) (fun p => IsPhrase ordered p.1 ∧ IsPhrase ordered p.2)
      (callSlot bodies s name) := by
  cases name with
  | string name =>
    have quoted : Phrase ordered 0 (quote name) := .quote hname
    rw [callSlot]
    split_ifs
    · exact .pure ⟨⟨0, field_phrase hname⟩, ⟨0, quoted⟩⟩
    · exact .pure ⟨⟨0, slot_phrase ⟨0, quoted⟩⟩, ⟨0, quoted⟩⟩
  | _ =>
    exact (expression_yields h _ hname).bind fun _ ht => .pure ⟨⟨0, slot_phrase ⟨_, ht⟩⟩, ⟨_, ht⟩⟩

/-- The end of a call, and the comment that says what is called. -/
theorem callEnd_spelled {t : String} (h : '\r' ∉ t.toList) :
    Spelled ordered .any (") -- call " ++ (oneLine t ++ "\n")) [")"] := by
  have closer : Spelled ordered .any ") " [")"] := .fixed (by decide)
  have text : ("-- call " ++ oneLine t).toList = '-' :: '-' :: ' ' :: ("call ".toList ++ (oneLine t).toList) := by
    rw [String.toList_append]
    rfl
  have comment : Spelled ordered .any ("-- call " ++ oneLine t ++ "\n") [] := by
    refine .lineComment text (by decide) ?_
    rw [← List.cons_append]
    exact List.forall_mem_append.mpr ⟨by simp [isLineBreak], (oneLine_unbroken_iff t).mpr h⟩
  have front : ") -- call " = ") " ++ "-- call " := by decide
  rw [String.append_assoc] at comment
  rw [front, String.append_assoc]
  exact closer.append comment

theorem call_yields (h : BodiesLegal ordered known s bodies) (hs : s.Legible ordered known) {name : Expr}
    (hname : name.isLegible known = true) : Yields (IsDeclaration ordered) (IsLine ordered) (call bodies s name) := by
  have target : Spelled ordered .stop s.target [.exp] := by
    unfold Scope.target
    cases htargets : s.targets with
    | nil => exact .checked (by decide)
    | cons t ts => exact hs.targets t (by rw [htargets]; exact List.mem_cons_self)
  have declares : IsDeclaration ordered ("local __evobj = " ++ s.target) := by
    have front : Spelled ordered .any "local __evobj = " ["local", .name, "="] := .fixed (by decide)
    exact (front.append target).as (by decide)
  refine (Yields.declare declares).bind fun _ _ => (callSlot_yields h hname).bind fun p hp => .pure ?_
  have front : Spelled ordered .any ";(" [";", "("] := .fixed (by decide)
  have middle : Spelled ordered .any " or __evobj.any)(__evobj, __actor, event, "
      ["or", .name, ".", .name, ")", "(", .name, ",", .name, ",", .name, ","] := .fixed (by decide)
  have named := hp.2.exp.followed (callEnd_spelled hp.2.exp.clean) ((Starts.fixed (by decide)).append _)
  have called := Call.hole_operations ["or", .name, ".", .name] hp.1 (middle.append named)
    ((Starts.fixed (by decide)).append _) (by decide)
  have whole : Spelled ordered .any _ [.stats] := (front.append called).as (by decide)
  simp only [← String.append_assoc] at whole
  exact whole

/-! ### Objects that run a block or a handler -/

/-- A number can stand in every comment. -/
theorem isLegibleTile_toString (id : Int) : isLegibleTile (toString id) = true := by
  have number : ∀ c ∈ (toString id).toList, Number.isNumberChar c = true := fun c hc =>
    Number.isNumberChar_of_mem_text (n := .integer id) hc
  have clean : '\r' ∉ (toString id).toList := fun h => absurd (number _ h) (by decide)
  have inside : ¬ [']', ']', ']'] <:+: (toString id).toList := fun h =>
    absurd (number _ (h.subset List.mem_cons_self)) (by decide)
  rw [isLegibleTile, isLegibleText, decide_eq_false inside, List.contains_eq_mem, decide_eq_false clean]
  rfl

theorem foldTile?_legible (hs : s.Legible ordered known) {e tile : Expr} (he : e.isLegible known = true)
    (h : s.foldTile? e = some tile) : tile.isLegible known = true := by
  cases e with
  | string name =>
    obtain ⟨id, hid, rfl⟩ := Option.map_eq_some_iff.mp h
    obtain ⟨before, after, heq, -⟩ := List.lookup_eq_some_iff.mp hid
    exact hs.tiles (name, id) (by rw [heq]; simp)
  | number n =>
    obtain ⟨id, -, rfl⟩ := Option.map_eq_some_iff.mp h
    exact isLegibleTile_toString id
  | tile id name =>
    obtain rfl := Option.some.inj h
    exact he
  | _ => cases h

theorem mimicLookup_yields (h : BodiesLegal ordered known s bodies) (hs : s.Legible ordered known) {target : Expr}
    (htarget : target.isLegible known = true) :
    Yields (IsDeclaration ordered) (IsPhrase ordered) (mimicLookup bodies s target) := by
  rw [mimicLookup]
  cases htile : s.foldTile? target with
  | some tile =>
    refine (expression_yields h tile (foldTile?_legible hs htarget htile)).bind fun t ht => .pure ⟨0, ?_⟩
    have front : Spelled ordered .bracket "((__pulp.tiles[" ["(", "(", .name, ".", .name, "["] :=
      .fixed (by decide)
    have last : Spelled ordered .any "] or __pulp.EMPTY).script or __pulp.EMPTY)"
        ["]", "or", .name, ".", .name, ")", ".", .name, "or", .name, ".", .name, ")"] := .fixed (by decide)
    have whole := (front.followed ht.exp ht.starts).followed last (.fixed (by decide))
    exact .ofAny whole (by decide +kernel) (((Starts.fixed (by decide +kernel)).append _).append _)
  | none =>
    refine (expression_yields h target htarget).bind fun t ht => .pure ⟨0, ?_⟩
    have front : Spelled ordered .any "(__pulp:getScript(" ["(", .name, ":", .name, "("] := .fixed (by decide)
    have last : Spelled ordered .any ") or __pulp.EMPTY)" [")", "or", .name, ".", .name, ")"] :=
      .fixed (by decide)
    have whole := (front.append ht.exp).followed last (.fixed (by decide))
    exact .ofAny whole (by decide) (((Starts.fixed (by decide)).append _).append _)

theorem mimic_yields (h : BodiesLegal ordered known s bodies) (hs : s.Legible ordered known) {target : Expr}
    (htarget : target.isLegible known = true) :
    Yields (IsDeclaration ordered) (fun t => Spelled ordered .stop t [.stat]) (mimic bodies s target) := by
  refine (mimicLookup_yields h hs htarget).bind fun lookup hlookup => .pure ?_
  have margin : Spelled ordered .any s.margin [] := .margin s
  have front : Spelled ordered .any "do -- (mimic)\n" ["do"] := by
    have text : "do -- (mimic)\n" = "do " ++ ("-- (mimic)" ++ "\n") := by decide
    rw [text]
    exact .opened (.remark (by decide))
  have binding : Spelled ordered .any "  local __mimic_target__ = " ["local", .name, "="] := .fixed (by decide)
  have newline : Spelled ordered .any "\n" [] := .fixed (by decide)
  have handler : Spelled ordered .any "  ;(__mimic_target__[__evname] or __mimic_target__.any)"
      [";", "(", .name, "[", .name, "]", "or", .name, ".", .name, ")"] := .fixed (by decide)
  have arguments : Spelled ordered .any "(__mimic_target__, __actor, event, __evname)\n"
      ["(", .name, ",", .name, ",", .name, ",", .name, ")"] := .fixed (by decide)
  have last : Spelled ordered .stop "end" ["end"] := .fixed (by decide)
  have bound := (((front.append margin).append binding).append hlookup.exp).followed newline (.fixed (by decide))
  have whole := (bound.append (margin.append handler)).append ((arguments.append margin).append last)
  exact whole.as (by decide +kernel)

/-- A block that is told to an object runs where there is one. -/
theorem told_yields (h : BodiesLegal ordered known s bodies) {label actor guard : String} {block : Nat}
    (hblock : block ∈ known) (hlabel : isRemark ("--tell " ++ label ++ " to").toList = true)
    (hactor : Spelled ordered .stop actor [.exp]) (hguard : Spelled ordered .stop guard [.exp]) :
    Yields (IsDeclaration ordered) (fun t => Spelled ordered .stop t [.stat])
      (told bodies s label actor guard block) := by
  refine (h .told block hblock).bind fun body hbody => .pure ?_
  have margin : Spelled ordered .any s.margin [] := .margin s
  have binding : Spelled ordered .any "  local __actor = " ["local", .name, "="] := .fixed (by decide)
  have newline : Spelled ordered .any "\n" [] := .fixed (by decide)
  have key : Spelled ordered .any "  if " ["if"] := .fixed (by decide)
  have opener : Spelled ordered .any " then\n" ["then"] := .fixed (by decide)
  have inner : Spelled ordered .any "  end\n" ["end"] := .fixed (by decide)
  have last : Spelled ordered .stop "end" ["end"] := .fixed (by decide)
  have front : Spelled ordered .any ("do --tell " ++ label ++ " to\n") ["do"] := by
    have text : "do --tell " = "do " ++ "--tell " ∧ " to\n" = " to" ++ "\n" := by decide
    have remark : Spelled ordered .any _ ["do"] := .opened (.remark hlabel)
    rw [text.1, text.2]
    simpa only [String.append_assoc] using remark
  have bound := (((front.append margin).append binding).append hactor).followed newline (.fixed (by decide))
  have guarded := (((bound.append margin).append key).append hguard).followed opener (.fixed (by decide))
  have whole := guarded.append ((((hbody.append margin).append inner).append margin).append last)
  exact whole.as (by decide)

theorem tell_yields (h : BodiesLegal ordered known s bodies) (hs : s.Legible ordered known) {target : TellTarget}
    {block : Nat} (ht : (Command.tell target block).isLegible known = true) :
    Yields (IsDeclaration ordered) (fun t => Spelled ordered .stop t [.stats]) (tell bodies s target block) := by
  obtain ⟨htarget, hblock⟩ := Bool.and_eq_true_iff.mp ht
  have among := List.contains_iff_mem.mp hblock
  have one : ∀ t, Spelled ordered .stop t [.stat] → Spelled ordered .stop t [.stats] := fun t ht =>
    ht.as (by decide)
  cases target with
  | place x y =>
    obtain ⟨hx, hy⟩ := Bool.and_eq_true_iff.mp htarget
    refine (expression_yields h y hy).bind fun ty hty => (expression_yields h x hx).bind fun tx htx => ?_
    have last : Spelled ordered .stop "]" ["]"] := .fixed (by decide)
    have actor := roomTile_spelled ⟨_, htx⟩ ⟨_, hty⟩ last (.fixed (by decide))
    exact (told_yields h among (by decide) (actor.as (by decide)) (.checked (by decide))).mono one
  | room | player | game =>
    exact (told_yields h among (by decide) (.checked (by decide))
      (.checked (by decide))).mono one
  | named name =>
    have legible : ((s.foldTile? name).getD name).isLegible known = true := by
      cases htile : s.foldTile? name with
      | some tile => exact foldTile?_legible hs htarget htile
      | none => exact htarget
    have args : Expr.areLegible known [(s.foldTile? name).getD name, .block block] = true :=
      Expr.areLegible_iff.mpr (List.forall_mem_cons.mpr ⟨legible, List.forall_mem_singleton.mpr hblock⟩)
    exact (arguments_yield h _ args).map fun _ ha => Call.function_stats (by decide) (by decide) ha

/-! ### Commands and blocks -/

/-- The line of a command, if it has one, is a list of statements. -/
theorem line_yields (h : BodiesLegal ordered known s bodies) (hs : s.Legible ordered known) {c : Command}
    (hc : c.isLegible known = true) (hchain : ordered = true → c.isChained = true) :
    Yields (IsDeclaration ordered) (fun t => ∀ u ∈ t, IsLine ordered u) (line bodies s c) := by
  have one : ∀ t, Spelled ordered .stop t [.stat] → ∀ u ∈ some t, IsLine ordered u := by
    rintro t ht u ⟨⟩
    exact ht.line (by decide)
  have several : ∀ t, Spelled ordered .stop t [.stats] → ∀ u ∈ some t, IsLine ordered u := by
    rintro t ht u ⟨⟩
    exact ht.ended
  have remark : ∀ t : String, isRemark t.toList = true → ∀ u ∈ some t, IsLine ordered u := by
    rintro t ht u ⟨⟩
    exact (Spelled.remark ht).as (by decide)
  cases c with
  | noop => exact .pure fun u hu => nomatch hu
  | comment | continuedComment => exact .pure (remark _ (by decide))
  | done => exact .pure (one _ (.fixed (by decide)))
  | assign target op value =>
    obtain ⟨htarget, hvalue⟩ := Bool.and_eq_true_iff.mp hc
    exact (assignment_yields h op htarget hvalue).map one
  | increment target | decrement target => exact (step_yields hc (by decide)).map one
  | cond c block clauses =>
    refine (conditional_yields h hc).map fun t ht => one t ?_
    exact ht.imp fun _ hts => ⟨hts.1, derives_conditional hchain hts.2⟩
  | loop c block => exact (loop_yields h hc).map one
  | call name =>
    refine (call_yields h hs hc).map ?_
    rintro t ht u ⟨⟩
    exact ht
  | emit name =>
    refine (expression_yields h name hc).bind fun t ht => .pure (one _ ?_)
    have front : Spelled ordered .any "__pulp:emit(" [.name, ":", .name, "("] := .fixed (by decide)
    have last : Spelled ordered .stop ", event)" [",", .name, ")"] := .fixed (by decide)
    exact ((front.append ht.exp).followed last (.fixed (by decide))).as (by decide)
  | mimic target => exact (mimic_yields h hs hc).map one
  | tell target block => exact (tell_yields h hs hc).map several
  | effect op args =>
    exact (arguments_yield h args hc).bind fun _ ha => .pure (several _ (Call.effect_stats op ha))
  | unknown tag =>
    rw [Command.isLegible, Bool.not_eq_true'] at hc
    have unbroken := (isLineComment_unknownLine_iff tag).mpr (isLineBreak_of_any hc)
    rw [toList_unknownLine, isLineComment_iff (by decide)] at unbroken
    have comment : Spelled ordered .any (unknownLine tag ++ "\n") [] :=
      .lineComment (toList_unknownLine tag) (by decide) unbroken
    refine (Yields.note _).bind fun _ _ => .pure ?_
    rintro u ⟨⟩
    exact comment.as (by decide)

theorem commandWith_yields (h : BodiesLegal ordered known s bodies) (hs : s.Legible ordered known) {c : Command}
    (hc : c.isLegible known = true) (hchain : ordered = true → c.isChained = true) :
    Yields (IsDeclaration ordered) (fun t => Spelled ordered .any t [.stats]) (commandWith bodies s c) := by
  refine (line_yields h hs hc hchain).bind fun t ht => ?_
  cases t with
  | none => exact .pure (.fixed (by decide))
  | some t =>
    have whole := (Spelled.margin s).append (ht t rfl)
    rw [← String.append_assoc] at whole
    exact .pure whole

/-- Commands are statements behind statements. -/
theorem commandsWith_yields (h : BodiesLegal ordered known s bodies) (hs : s.Legible ordered known) :
    {cs : Block} → (∀ c ∈ cs, c.isLegible known = true ∧ (ordered = true → c.isChained = true)) →
    Yields (IsDeclaration ordered) (fun t => Spelled ordered .any t [.stats]) (commandsWith bodies s cs)
  | [], _ => .pure (.fixed (by decide))
  | c :: cs, hall => by
    obtain ⟨⟨hc, hchain⟩, hcs⟩ := List.forall_mem_cons.mp hall
    refine (commandWith_yields h hs hc hchain).bind fun t ht => (commandsWith_yields h hs hcs).bind fun rest hrest =>
      .pure ?_
    exact (ht.append hrest).stats (by decide)

theorem declarationLines_spelled : {ds : List String} → (∀ d ∈ ds, IsDeclaration ordered d) →
    Spelled ordered .any (declarationLines s ds) [.stats]
  | [], _ => .fixed (by decide)
  | d :: ds, h => by
    obtain ⟨hd, hds⟩ := List.forall_mem_cons.mp h
    have first := (Spelled.margin s).append (hd.line (by decide))
    have whole := (first.append (declarationLines_spelled hds)).stats (by decide)
    rw [← String.append_assoc] at whole
    exact whole

theorem blockWith_yields (h : BodiesLegal ordered known s bodies) (hs : s.Legible ordered known) {cs : Block}
    (hall : ∀ c ∈ cs, c.isLegible known = true ∧ (ordered = true → c.isChained = true)) (isFunction : Bool) :
    Yields (IsDeclaration ordered) (fun t => Spelled ordered .any t [.stats]) (blockWith bodies s isFunction cs) := by
  have commands := commandsWith_yields h hs hall
  cases isFunction with
  | false => exact commands
  | true =>
    refine commands.functionScope.bind fun p hp => .pure ?_
    exact ((declarationLines_spelled hp.2).append hp.1).stats (by decide)

/-- Every place of a legible scope has a legible scope of its own. -/
theorem legible_scope (hs : s.Legible ordered known) (place : Place) : (place.scope s).Legible ordered known := by
  have target : Spelled ordered .stop toldTarget [.exp] := .checked (by decide)
  cases place with
  | branch | callback => exact ⟨hs.targets, hs.tiles, hs.commands, hs.chains⟩
  | told => exact ⟨List.forall_mem_cons.mpr ⟨target, hs.targets⟩, hs.tiles, hs.commands, hs.chains⟩

/-- By induction on the levels: the bodies in a body are legal with one level fewer. -/
theorem bodyWithin_yields : (levels : Nat) → {s : Scope} → s.Legible ordered known → (isFunction : Bool) →
    {index : Nat} → index ∈ known → Yields (IsDeclaration ordered) (fun t => Spelled ordered .any t [.stats])
      (bodyWithin levels s isFunction index)
  | levels, s, hs, isFunction, index, hindex => by
    cases hcs : s.blocks[index]? with
    | none =>
      rw [bodyWithin_missing hcs]
      exact .fail _
    | some cs =>
      cases levels with
      | zero =>
        rw [bodyWithin, Scope.blockAt, hcs]
        exact .fail _
      | succ levels =>
        rw [bodyWithin_succ hcs]
        exact blockWith_yields (fun place _ hi => bodyWithin_yields levels (legible_scope hs place) _ hi) hs
          (fun c hc => ⟨hs.commands index hindex cs hcs c hc, fun heq => hs.chains heq index hindex cs hcs c hc⟩) _

/-- In a legible scope the bodies of the known blocks are lists of statements. -/
theorem bodiesLegal_body (hs : s.Legible ordered known) : BodiesLegal ordered known s body :=
  fun place _ hindex => bodyWithin_yields _ (legible_scope hs place) _ hindex

end Compile
end GameScript
