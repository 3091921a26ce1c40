import GameScript.Proofs.Assembly
import GameScript.Proofs.Compile.Draft

/-! Compiling in the two spellings of compound assignments. Only the text of such an assignment looks at the
spelling, so a compile records the same in both, fails in both with the same error, and comes to the same draft.
Hence the spelling changes nothing of a unit but these assignments in the text of its scripts. -/

namespace GameScript

open Compile Lua Outcome

/-- The scope with compound assignments written as such or not. -/
def Scope.spelling (s : Scope) (relative : Bool) : Scope :=
  { s with options := { s.options with relativeAssign := relative } }

namespace Outcome

variable {α α' β β' : Type} {R : α → α' → Prop} {S : β → β' → Prop}

/-- Two outcomes record the same, and have results in a relation or end in the same error. -/
inductive Matches (R : α → α' → Prop) : Outcome α → Outcome α' → Prop where
  | ok {log : List Entry} {a : α} {a' : α'} : R a a' → Matches R ⟨log, .ok a⟩ ⟨log, .ok a'⟩
  | error {log : List Entry} {e : CompileError} : Matches R ⟨log, .error e⟩ ⟨log, .error e⟩

namespace Matches

theorem refl {R : α → α → Prop} (h : ∀ a, R a a) (x : Outcome α) : Matches R x x := by
  obtain ⟨log, e | a⟩ := x
  · exact .error
  · exact .ok (h a)

theorem pure {a : α} {a' : α'} (h : R a a') : Matches R (Pure.pure a) (Pure.pure a') := .ok h

theorem bind {x : Outcome α} {x' : Outcome α'} {f : α → Outcome β} {f' : α' → Outcome β'}
    (hx : Matches R x x') (hf : ∀ a a', R a a' → Matches S (f a) (f' a')) :
    Matches S (x >>= f) (x' >>= f') := by
  cases hx with
  | error => exact .error
  | @ok log a a' h =>
    have rest := hf a a' h
    rw [bind_ok, bind_ok]
    generalize f a = y at rest
    generalize f' a' = y' at rest
    cases rest with
    | ok h => exact .ok h
    | error => exact .error

theorem mono {R' : α → α' → Prop} {x : Outcome α} {x' : Outcome α'} (h : ∀ a a', R a a' → R' a a')
    (hx : Matches R x x') : Matches R' x x' := by
  cases hx with
  | ok ha => exact .ok (h _ _ ha)
  | error => exact .error

theorem map {x : Outcome α} {x' : Outcome α'} {f : α → β} {f' : α' → β'} (hx : Matches R x x')
    (hf : ∀ a a', R a a' → S (f a) (f' a')) : Matches S (f <$> x) (f' <$> x') :=
  hx.bind fun a a' h => .pure (hf a a' h)

/-- What is the same in both goes on with the same result. -/
theorem same {x : Outcome α} {f : α → Outcome β} {f' : α → Outcome β'}
    (hf : ∀ a, x.result = .ok a → Matches S (f a) (f' a)) : Matches S (x >>= f) (x >>= f') := by
  have itself : Matches (fun a a' => x.result = .ok a ∧ a' = a) x x := by
    obtain ⟨log, e | a⟩ := x
    · exact .error
    · exact .ok ⟨rfl, rfl⟩
  exact itself.bind fun a _ ⟨ha, h⟩ => h ▸ hf a ha

theorem log_eq {x : Outcome α} {x' : Outcome α'} (hx : Matches R x x') : x.log = x'.log := by
  cases hx <;> rfl

theorem results {x : Outcome α} {x' : Outcome α'} (hx : Matches R x x') :
    (∃ e, x.result = .error e ∧ x'.result = .error e) ∨
      ∃ a a', x.result = .ok a ∧ x'.result = .ok a' ∧ R a a' := by
  cases hx with
  | ok h => exact .inr ⟨_, _, rfl, rfl, h⟩
  | error => exact .inl ⟨_, rfl, rfl⟩

theorem functionScope {x : Outcome α} {x' : Outcome α'} (hx : Matches R x x') :
    Matches (fun p p' => R p.1 p'.1 ∧ p.2 = p'.2) x.functionScope x'.functionScope := by
  cases hx with
  | ok h => exact .ok ⟨h, rfl⟩
  | error => exact .error

end Matches
end Outcome

/-- The command combines a variable with a value. -/
inductive Command.Combines : Command → String → String → Prop where
  | assign {target operator : String} {op : AssignOp} {value : Expr} : op.operator? = some operator →
      Combines (.assign target op value) target operator
  | increment {target : String} : Combines (.increment target) target "+"
  | decrement {target : String} : Combines (.decrement target) target "-"

namespace Compile

/-- In every scope, the blocks come to the same drafts in both spellings. -/
def BodiesRespelled (bodies : BodyCompiler) : Prop :=
  ∀ (s : Scope) (isFunction : Bool) (index : Nat),
    Matches Respelled (bodies (s.spelling true) isFunction index)
      (bodies (s.spelling false) isFunction index)

variable {bodies : BodyCompiler} {s : Scope}

theorem callback_respelled (h : BodiesRespelled bodies) (index : Nat) :
    Matches Respelled (callback bodies (s.spelling true) index)
      (callback bodies (s.spelling false) index) :=
  (h (s.indented 2) true index).bind fun _ _ ht => .pure ((ht.within _ _).followed _)

mutual

theorem expression_respelled (h : BodiesRespelled bodies) : (e : Expr) →
    Matches Respelled (expression bodies (s.spelling true) e) (expression bodies (s.spelling false) e)
  | .string _ | .number _ | .bool true | .bool false | .nil | .tile _ _ | .read _ | .pair _ _ | .rect _
  | .unknown _ => .refl Respelled.refl _
  | .format parts => (pieces_respelled h parts).map fun _ _ => Respelled.concatenation
  | .embed inner => (expression_respelled h inner).bind fun _ _ ht => .pure (ht.within _ _)
  | .block index => callback_respelled h index
  | .value op args => (arguments_respelled h args).map fun _ _ => Call.text_respelled .value op.opcode
  | .nameOf args => by
      have each := arguments_respelled h args
      cases args with
      | nil => exact each.map fun _ _ => Call.text_respelled .value _
      | cons e _ =>
        cases e with
        | pair x y =>
          exact (expression_respelled h x).bind fun _ _ hx => (expression_respelled h y).bind fun _ _ hy =>
            .pure (((hy.within _ _).append hx).followed _)
        | _ => exact each.map fun _ _ => Call.text_respelled .value _

theorem pieces_respelled (h : BodiesRespelled bodies) : (es : List Expr) →
    Matches (List.Forall₂ Respelled) (pieces bodies (s.spelling true) es)
      (pieces bodies (s.spelling false) es)
  | [] => .pure .nil
  | e :: es => by
      have first := expression_respelled h e
      have rest := pieces_respelled h es
      cases e with
      | string _ => exact rest.bind fun _ _ hts => .pure (.cons (.refl _) hts)
      | _ => exact first.bind fun _ _ ht => rest.bind fun _ _ hts => .pure (.cons (ht.within _ _) hts)

theorem arguments_respelled (h : BodiesRespelled bodies) : (es : List Expr) →
    Matches (List.Forall₂ Argument.Respelled) (arguments bodies (s.spelling true) es)
      (arguments bodies (s.spelling false) es)
  | [] => .pure .nil
  | e :: es => by
      have first := expression_respelled h e
      have rest := arguments_respelled h es
      cases e with
      | pair x y =>
        exact (expression_respelled h x).bind fun _ _ hx => (expression_respelled h y).bind fun _ _ hy =>
          rest.bind fun _ _ hargs => .pure (.cons (.pair hx hy) hargs)
      | rect parts =>
        exact (sides_respelled h _ parts).bind fun _ _ hts =>
          rest.bind fun _ _ hargs => .pure (.cons (.rect hts) hargs)
      | block index =>
        exact first.bind fun _ _ ht => rest.bind fun _ _ hargs => .pure (.cons (.callback ht) hargs)
      | _ => exact first.bind fun _ _ ht => rest.bind fun _ _ hargs => .pure (.cons (.plain ht) hargs)

theorem sides_respelled (h : BodiesRespelled bodies) : (n : Nat) → (es : List Expr) →
    Matches (List.Forall₂ Respelled) (sides bodies (s.spelling true) n es)
      (sides bodies (s.spelling false) n es)
  | 0, [] | 0, _ :: _ | _ + 1, [] => .pure .nil
  | n + 1, e :: es => (expression_respelled h e).bind fun _ _ ht =>
      (sides_respelled h n es).bind fun _ _ hts => .pure (.cons ht hts)

end

theorem comparison_respelled (h : BodiesRespelled bodies) (c : Comparison) :
    Matches Respelled (comparison bodies (s.spelling true) c) (comparison bodies (s.spelling false) c) := by
  have last : ∀ left other : String, Respelled left other → Matches Respelled
      (do
        let right ← expression bodies (s.spelling true) c.right
        return s!"{left} {c.op.symbol} {right}")
      (do
        let right ← expression bodies (s.spelling false) c.right
        return s!"{other} {c.op.symbol} {right}") :=
    fun _ _ hleft => (expression_respelled h c.right).bind fun _ _ hright =>
      .pure ((((hleft.followed _).followed _).followed _).append hright)
  obtain ⟨op, left, right⟩ := c
  cases left with
  | string name =>
    rw [comparison, comparison]
    by_cases hname : isToken name
    · simp only [hname, if_true]
      exact (Matches.refl Respelled.refl _).bind last
    · simp only [hname]
      exact (Matches.refl Respelled.refl _).bind last
  | _ => exact (expression_respelled h _).bind last

theorem branches_respelled (h : BodiesRespelled bodies) : (clauses : List Clause) →
    Matches Respelled (branches bodies (s.spelling true) clauses)
      (branches bodies (s.spelling false) clauses)
  | [] => .pure (.refl _)
  | .elseIf c block :: clauses => (comparison_respelled h c).bind fun _ _ hhead =>
      (h (s.indented 1) false block).bind fun _ _ hbody =>
        (branches_respelled h clauses).bind fun _ _ hrest =>
          .pure (((hhead.within _ _).append hbody).append hrest)
  | .otherwise block :: clauses => (h (s.indented 1) false block).bind fun _ _ hbody =>
      (branches_respelled h clauses).bind fun _ _ hrest =>
        .pure ((hbody.preceded _).append hrest)

/-- The texts are those of a compound assignment to a variable. -/
def Combined (target operator t t' : String) : Prop :=
  ∃ (name : String) (known : operator ∈ arithmetic) (value : Draft),
    (writeTarget target).result = .ok name ∧
      (Draft.compound name operator known value).spelled true = t ∧
      (Draft.compound name operator known value).spelled false = t'

theorem Combined.respelled {target operator t t' : String} :
    Combined target operator t t' → Respelled t t'
  | ⟨_, _, _, _, ht, ht'⟩ => ⟨_, ht, ht'⟩

/-- The one place where the spelling shows. -/
theorem compound_combined {target operator name value value' : String} (known : operator ∈ arithmetic)
    (hname : (writeTarget target).result = .ok name) (h : Respelled value value') :
    Combined target operator (compound (s.spelling true) name operator value)
      (compound (s.spelling false) name operator value') := by
  obtain ⟨d, rfl, rfl⟩ := h
  exact ⟨name, known, d, hname, rfl, rfl⟩

theorem mem_arithmetic {op : AssignOp} {operator : String} (h : op.operator? = some operator) :
    operator ∈ arithmetic := by
  cases op <;> cases h <;> decide

theorem assignment_combined (h : BodiesRespelled bodies) (target : String) {op : AssignOp}
    {operator : String} (hop : op.operator? = some operator) (value : Expr) :
    Matches (Combined target operator) (assignment bodies (s.spelling true) target op value)
      (assignment bodies (s.spelling false) target op value) := by
  refine Matches.same fun name hname => (expression_respelled h value).bind fun _ _ hvalue => ?_
  simp only [hop]
  exact .pure (compound_combined (mem_arithmetic hop) hname hvalue)

theorem assignment_respelled (h : BodiesRespelled bodies) (target : String) (op : AssignOp)
    (value : Expr) : Matches Respelled (assignment bodies (s.spelling true) target op value)
      (assignment bodies (s.spelling false) target op value) := by
  cases hop : op.operator? with
  | some operator => exact (assignment_combined h target hop value).mono fun _ _ => Combined.respelled
  | none =>
    refine Matches.same fun _ _ => (expression_respelled h value).bind fun _ _ hvalue => ?_
    simp only [hop]
    exact .pure (hvalue.preceded _)

theorem step_combined (target : String) {operator : String} (known : operator ∈ arithmetic) :
    Matches (Combined target operator) (step (s.spelling true) target operator)
      (step (s.spelling false) target operator) :=
  Matches.same fun _ hname => .pure (compound_combined known hname (.refl _))

theorem call_respelled (h : BodiesRespelled bodies) (name : Expr) :
    Matches Respelled (call bodies (s.spelling true) name) (call bodies (s.spelling false) name) := by
  have slot : Matches (fun p p' => Respelled p.1 p'.1 ∧ Respelled p.2 p'.2)
      (callSlot bodies (s.spelling true) name) (callSlot bodies (s.spelling false) name) := by
    cases name with
    | string _ => exact .refl (fun _ => ⟨.refl _, .refl _⟩) _
    | _ => exact (expression_respelled h _).bind fun _ _ ht => .pure ⟨ht.within _ _, ht⟩
  refine Matches.same fun _ _ => slot.bind fun _ _ ⟨hslot, hname⟩ => .pure ?_
  exact (((hslot.within _ _).append hname).followed _).append hname.oneLine

theorem mimic_respelled (h : BodiesRespelled bodies) (target : Expr) :
    Matches Respelled (mimic bodies (s.spelling true) target) (mimic bodies (s.spelling false) target) := by
  have lookup : Matches Respelled (mimicLookup bodies (s.spelling true) target)
      (mimicLookup bodies (s.spelling false) target) := by
    have same : (s.spelling true).foldTile? target = (s.spelling false).foldTile? target := rfl
    rw [mimicLookup, mimicLookup, same]
    cases (s.spelling false).foldTile? target <;>
      exact (expression_respelled h _).bind fun _ _ ht => .pure (ht.within _ _)
  exact lookup.bind fun _ _ ht => .pure (((ht.within _ _).followed _).followed _)

theorem told_respelled (h : BodiesRespelled bodies) (label guard : String) (block : Nat)
    {actor actor' : String} (hactor : Respelled actor actor') :
    Matches Respelled (told bodies (s.spelling true) label actor guard block)
      (told bodies (s.spelling false) label actor' guard block) := by
  refine (h ((s.indented 2).withTarget toldTarget) true block).bind fun _ _ hbody => .pure ?_
  refine Respelled.append ?_ ?_
  · exact ((((hactor.within _ _).followed _).followed _).followed _).followed _
  · exact (((hbody.followed _).followed _).followed _).followed _

theorem tell_respelled (h : BodiesRespelled bodies) (target : TellTarget) (block : Nat) :
    Matches Respelled (tell bodies (s.spelling true) target block)
      (tell bodies (s.spelling false) target block) := by
  cases target with
  | place x y =>
    exact (expression_respelled h y).bind fun _ _ hy => (expression_respelled h x).bind fun _ _ hx =>
      told_respelled h _ _ block (((hy.within _ _).append hx).followed _)
  | named name => exact (arguments_respelled h _).map fun _ _ => Call.text_respelled .effect "tell"
  | _ => exact told_respelled h _ _ block (.refl _)

theorem line_respelled (h : BodiesRespelled bodies) (c : Command) :
    Matches (Option.Rel Respelled) (line bodies (s.spelling true) c)
      (line bodies (s.spelling false) c) := by
  have present : ∀ t t', Respelled t t' → Option.Rel Respelled (some t) (some t') :=
    fun _ _ => .some
  cases c with
  | noop => exact .pure .none
  | comment | continuedComment | done => exact .pure (.some (.refl _))
  | assign target op value => exact (assignment_respelled h target op value).map present
  | increment target | decrement target =>
    exact (step_combined target (by decide)).map fun t t' ht => present t t' ht.respelled
  | cond c block clauses =>
    refine Matches.map ((comparison_respelled h c).bind fun _ _ hhead =>
      (h (s.indented 1) false block).bind fun _ _ hbody =>
        (branches_respelled h clauses).bind fun _ _ hrest => .pure ?_) present
    exact ((((hhead.within _ _).append hbody).append hrest).followed _).followed _
  | loop c block =>
    refine Matches.map ((comparison_respelled h c).bind fun _ _ hhead =>
      (h (s.indented 1) false block).bind fun _ _ hbody => .pure ?_) present
    exact (((hhead.within _ _).append hbody).followed _).followed _
  | call name => exact (call_respelled h name).map present
  | emit name => exact (expression_respelled h name).bind fun _ _ ht => .pure (.some (ht.within _ _))
  | mimic target => exact (mimic_respelled h target).map present
  | tell target block => exact (tell_respelled h target block).map present
  | effect op args =>
    exact (arguments_respelled h args).bind fun _ _ hargs =>
      .pure (.some (Call.text_respelled .effect op.name hargs))
  | unknown tag => exact .refl (fun t => by cases t <;> constructor; exact .refl _) _

theorem line_combined (h : BodiesRespelled bodies) {c : Command} {target operator : String}
    (hc : c.Combines target operator) :
    Matches (fun x x' => ∃ t t', Combined target operator t t' ∧ x = some t ∧ x' = some t')
      (line bodies (s.spelling true) c) (line bodies (s.spelling false) c) := by
  cases hc with
  | assign hop => exact (assignment_combined h target hop _).map fun t t' ht => ⟨t, t', ht, rfl, rfl⟩
  | increment | decrement =>
    exact (step_combined target (by decide)).map fun t t' ht => ⟨t, t', ht, rfl, rfl⟩

theorem commandsWith_respelled (h : BodiesRespelled bodies) : (cs : Block) →
    Matches Respelled (commandsWith bodies (s.spelling true) cs)
      (commandsWith bodies (s.spelling false) cs)
  | [] => .pure (.refl _)
  | c :: cs => by
    have first : Matches Respelled (commandWith bodies (s.spelling true) c)
        (commandWith bodies (s.spelling false) c) := by
      refine (line_respelled h c).bind fun t t' ht => ?_
      cases ht with
      | none => exact .pure (.refl _)
      | some ht => exact .pure (ht.within _ _)
    exact first.bind fun _ _ ht => (commandsWith_respelled h cs).bind fun _ _ hrest =>
      .pure (ht.append hrest)

/-- A function declares the same in both spellings, since its commands record the same. -/
theorem blockWith_respelled (h : BodiesRespelled bodies) (isFunction : Bool) (cs : Block) :
    Matches Respelled (blockWith bodies (s.spelling true) isFunction cs)
      (blockWith bodies (s.spelling false) isFunction cs) := by
  have commands := commandsWith_respelled (s := s) h cs
  cases isFunction with
  | false => exact commands
  | true =>
    refine commands.functionScope.bind fun ⟨t, ds⟩ ⟨t', ds'⟩ ⟨ht, hds⟩ => .pure ?_
    obtain rfl : ds = ds' := hds
    exact ht.preceded _

theorem bodyWithin_respelled : (levels : Nat) → BodiesRespelled (bodyWithin levels)
  | levels, s, isFunction, index => by
    cases hcs : s.blocks[index]? with
    | none =>
      rw [bodyWithin_missing (s := s.spelling true) hcs, bodyWithin_missing (s := s.spelling false) hcs]
      exact .error
    | some cs =>
      cases levels with
      | zero => exact .refl Respelled.refl _
      | succ n =>
        rw [bodyWithin_succ (s := s.spelling true) hcs, bodyWithin_succ (s := s.spelling false) hcs]
        exact blockWith_respelled (bodyWithin_respelled n) isFunction cs

theorem body_respelled : BodiesRespelled body :=
  fun s isFunction index => bodyWithin_respelled s.blocks.length s isFunction index

/-! ### Scripts -/

theorem event_respelled (script name : String) (index : Nat) :
    Matches Respelled (event (s.spelling true) script name index)
      (event (s.spelling false) script name index) := by
  have function := body_respelled (s.withTarget (scriptObject script)) true index
  refine Matches.same fun cs _ => function.bind fun t t' ht => ?_
  have noted : pureMimic? (s.spelling true) cs = pureMimic? (s.spelling false) cs := rfl
  simp only [noted]
  split
  · exact Matches.same fun _ _ => .pure (ht.within _ _)
  · exact .pure (ht.within _ _)

theorem events_respelled (script : String) : (es : List (String × Nat)) →
    Matches Respelled (events (s.spelling true) script es) (events (s.spelling false) script es)
  | [] => .pure (.refl _)
  | (name, index) :: es => (event_respelled script name index).bind fun _ _ ht =>
      (events_respelled script es).bind fun _ _ hrest => .pure ((ht.preceded _).append hrest)

theorem script_respelled (r : Registry) (x : Script) :
    Matches Respelled (script r (s.spelling true) x) (script r (s.spelling false) x) := by
  rw [script, script]
  cases r.nameOf? x.key with
  | none => exact .pure (.refl _)
  | some name =>
    exact (events_respelled (s := s.withBlocks x.blocks) name x.events).bind fun _ _ ht =>
      .pure (ht.preceded _)

theorem scriptList_respelled (r : Registry) : (xs : List Script) →
    Matches Respelled (scriptList r (s.spelling true) xs) (scriptList r (s.spelling false) xs)
  | [] => .pure (.refl _)
  | x :: xs => (script_respelled r x).bind fun _ _ ht =>
      (scriptList_respelled r xs).bind fun _ _ hrest => .pure (ht.append hrest)

end Compile

/-! ### Units -/

namespace Assembly

/-- What a unit has before its scripts. -/
def opening (g : Game) (tiles : String) (ledger : Ledger) : String :=
  preamble g ++ dataTables g tiles ++ "\n" ++ (Promotion.ofUsage ledger.usage).declarations

/-- What a unit has after its scripts. -/
def closing (r : Registry) (ledger : Ledger) (passes : Nat) : String :=
  foldedSection (Mimic.fold r ledger.candidates passes) ++
    (Promotion.ofUsage ledger.usage).accessors ++ "\n__pulp:load()\n__pulp:start()\n" ++
    trailer ledger.diagnostics

theorem unitText_eq (options : Options) (g : Game) (p : Parts) (ledger : Ledger) :
    unitText options g p ledger = opening g p.tiles ledger ++ p.scripts ++
      closing p.registry ledger options.foldPasses := by
  simp only [unitText, opening, closing, String.append_assoc]

/-- The scopes of the two compiles of a game differ in the spelling only. -/
theorem exists_tileScope (passes : Nat) (g : Game) :
    ∃ s : Scope, ∀ relative, tileScope ⟨passes, relative⟩ g = s.spelling relative := by
  refine ⟨tileScope ⟨passes, true⟩ g, fun relative => ?_⟩
  rw [tileScope_eq, tileScope_eq]
  rfl

end Assembly

namespace Game

/-- The parts of a unit in both spellings: they differ in nothing but the text of the scripts. -/
theorem outcome_respelled (g : Game) (passes : Nat) :
    Matches (fun p p' => p.tiles = p'.tiles ∧ p.registry = p'.registry ∧ Respelled p.scripts p'.scripts)
      (g.outcome ⟨passes, true⟩) (g.outcome ⟨passes, false⟩) := by
  obtain ⟨s, hs⟩ := Assembly.exists_tileScope passes g
  have scripts : ∀ r, Matches Respelled
      (Compile.scripts r (Assembly.tileScope ⟨passes, true⟩ g) g.scripts)
      (Compile.scripts r (Assembly.tileScope ⟨passes, false⟩ g) g.scripts) := by
    intro r
    rw [hs, hs]
    exact scriptList_respelled r _
  exact Matches.same fun _ _ => Matches.same fun r _ => (scripts r).bind fun _ _ ht => .pure ⟨rfl, rfl, ht⟩

theorem ledger_spelling (g : Game) (passes : Nat) (relative : Bool) :
    g.ledger ⟨passes, relative⟩ = g.ledger ⟨passes, true⟩ := by
  cases relative with
  | true => rfl
  | false => rw [ledger, ledger, (g.outcome_respelled passes).log_eq]

/-- The spelling of compound assignments changes nothing but these assignments. Wherever such a command compiles,
its text is the assignment in either spelling. A game records the same in both: the variables with their number
of uses in order of first use, the messages and the candidates. It fails in both with the same error, or it has
in both the same parts around the scripts, whose text is one draft spelled in either way. -/
theorem compile_spelling :
    (∀ (s : Scope) (c : Command) (target operator : String), c.Combines target operator →
      (∃ e, ∀ relative, (line body (s.spelling relative) c).result = .error e) ∨
      ∃ (name : String) (known : operator ∈ arithmetic) (value : Draft),
        (writeTarget target).result = .ok name ∧
        ∀ relative, (line body (s.spelling relative) c).result =
          .ok (some ((Draft.compound name operator known value).spelled relative))) ∧
    ∀ (g : Game) (passes : Nat), g.ledger ⟨passes, true⟩ = g.ledger ⟨passes, false⟩ ∧
      ((∃ e, ∀ relative, g.compile ⟨passes, relative⟩ = .error e) ∨
        ∃ (tiles : String) (r : Registry) (d : Draft), ∀ relative,
          (g.outcome ⟨passes, relative⟩).result = .ok ⟨tiles, r, d.spelled relative⟩ ∧
          g.compile ⟨passes, relative⟩ = .ok
            ⟨Assembly.opening g tiles (g.ledger ⟨passes, true⟩) ++ d.spelled relative ++
                Assembly.closing r (g.ledger ⟨passes, true⟩) passes,
              (Atlas.build g.frames).unique, (g.ledger ⟨passes, true⟩).diagnostics⟩) := by
  refine ⟨fun s c target operator hc => ?_, fun g passes =>
    ⟨(g.ledger_spelling passes false).symm, ?_⟩⟩
  · rcases (line_combined (s := s) body_respelled hc).results with
      ⟨e, he, he'⟩ | ⟨_, _, ht, ht', _, _, ⟨name, known, value, hname, rfl, rfl⟩, rfl, rfl⟩
    · exact .inl ⟨e, Bool.forall_bool.mpr ⟨he', he⟩⟩
    · exact .inr ⟨name, known, value, hname, Bool.forall_bool.mpr ⟨ht', ht⟩⟩
  · rcases (g.outcome_respelled passes).results with
      ⟨e, he, he'⟩ | ⟨⟨tiles, r, t⟩, ⟨_, _, _⟩, hp, hp', rfl, rfl, d, rfl, rfl⟩
    · have failed : ∀ relative, (g.outcome ⟨passes, relative⟩).result = .error e :=
        Bool.forall_bool.mpr ⟨he', he⟩
      refine .inl ⟨e, fun relative => ?_⟩
      rw [compile_eq, failed]
      rfl
    · have parts : ∀ relative, (g.outcome ⟨passes, relative⟩).result =
          .ok ⟨tiles, r, d.spelled relative⟩ := Bool.forall_bool.mpr ⟨hp', hp⟩
      refine .inr ⟨tiles, r, d, fun relative => ⟨parts relative, ?_⟩⟩
      rw [compile_eq, parts, ledger_spelling, Except.map]
      simp only [Assembly.unitText_eq]

/-- A compound assignment in the value of another one. -/
theorem compile_spelling_nested :
    let c : Command := .assign "a" .add (.block 1)
    let x : Script := ⟨.global, 0, [("load", 0)], [[c], [.increment "b"]]⟩
    let g : Game := { (default : Game) with scripts := [x] }
    let s := (Scope.initial .standard).withBlocks x.blocks
    let scripts (a b : String) := registration "game" x.key ++
      s!"\n__pulp:getScript(\"game\").load = function({handlerParameters})\n" ++
      s!"  {a} function({handlerParameters})\n      {b} 1\n    end\nend\n"
    c.Combines "a" "+" ∧
    (∃ value : Draft, ∀ relative, (line body (s.spelling relative) c).result =
      .ok (some ((Draft.compound "a" "+" (by decide) value).spelled relative))) ∧
    ∃ (tiles : String) (r : Registry) (d : Draft),
      (∀ relative, (g.outcome ⟨5, relative⟩).result = .ok ⟨tiles, r, d.spelled relative⟩) ∧
      d.spelled true = scripts "a +=" "b +=" ∧ d.spelled false = scripts "a = a +" "b = b +" := by
  intro c x g s scripts
  have combines : c.Combines "a" "+" := .assign rfl
  refine ⟨combines, ?_, ?_⟩
  · have compiles : (line body (s.spelling true) c).result.toOption.isSome = true := by decide +kernel
    rcases compile_spelling.1 s c "a" "+" combines with ⟨e, he⟩ | ⟨name, known, value, hname, hline⟩
    · rw [he] at compiles
      cases compiles
    · cases hname
      exact ⟨value, hline⟩
  · have compiles : (g.compile ⟨5, true⟩).toOption.isSome = true := by decide +kernel
    have texts : ∀ relative, (g.outcome ⟨5, relative⟩).result.toOption.map Assembly.Parts.scripts =
        some (if relative then scripts "a +=" "b +=" else scripts "a = a +" "b = b +") := by
      decide +kernel
    rcases (compile_spelling.2 g 5).2 with ⟨e, he⟩ | ⟨tiles, r, d, parts⟩
    · rw [he true] at compiles
      cases compiles
    · have spelled : ∀ relative, d.spelled relative =
          if relative then scripts "a +=" "b +=" else scripts "a = a +" "b = b +" := by
        intro relative
        have text := texts relative
        rw [(parts relative).1] at text
        exact Option.some.inj text
      exact ⟨tiles, r, d, fun relative => (parts relative).1, spelled true, spelled false⟩

end Game
end GameScript
