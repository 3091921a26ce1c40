import GameScript.Proofs.Compile.Declarations

/-! The levels of blocks in one another. An outcome that did not run out of levels is the same with more of
them, since none of the bodies it consists of ran out; so a body that compiles is the block at its index,
compiled as such. -/

namespace GameScript

open Compile Outcome

namespace Outcome

variable {α β : Type}

/-- The outcome is not a failure for want of levels. -/
def Settled (x : Outcome α) : Prop := ∀ i, x.result ≠ .error (.cyclicBlock i)

theorem Settled.of_ok {x : Outcome α} {a : α} (h : x.result = .ok a) : x.Settled := by
  intro i hi
  rw [h] at hi
  cases hi

/-- Where the first outcome is settled, the second one is the same. -/
def Below (x y : Outcome α) : Prop := x.Settled → y = x

namespace Below

theorem refl (x : Outcome α) : Below x x := fun _ => rfl

theorem bind {x y : Outcome α} {f g : α → Outcome β} (hx : Below x y) (hf : ∀ a, Below (f a) (g a)) :
    Below (x >>= f) (y >>= g) := by
  intro settled
  obtain ⟨log, e | a⟩ := x
  · -- a first part that ran out of levels would end the whole with the same error
    rw [hx fun i hi => settled i (by cases hi; rfl)]
    rfl
  · rw [hx (Settled.of_ok rfl), bind_ok, bind_ok, hf a settled]

theorem map {x y : Outcome α} (f : α → β) (hx : Below x y) : Below (f <$> x) (f <$> y) :=
  hx.bind fun _ => refl _

theorem functionScope {x y : Outcome α} (hx : Below x y) :
    Below x.functionScope y.functionScope := by
  intro settled
  rw [hx fun i hi => settled i (by rw [Outcome.functionScope, hi]; rfl)]

end Below
end Outcome

namespace Compile

/-- In a scope, the bodies of one compiler that are settled are those of the other one. -/
def BodiesBelow (s : Scope) (bodies bodies' : BodyCompiler) : Prop :=
  ∀ (place : Place) (index : Nat), Below (bodies (place.scope s) place.isFunction index)
    (bodies' (place.scope s) place.isFunction index)

variable {bodies bodies' : BodyCompiler} {s : Scope}

theorem callback_below (h : BodiesBelow s bodies bodies') (index : Nat) :
    Below (callback bodies s index) (callback bodies' s index) :=
  (h .callback index).bind fun _ => .refl _

mutual

theorem expression_below (h : BodiesBelow s bodies bodies') :
    (e : Expr) → Below (expression bodies s e) (expression bodies' s e)
  | .string _ | .number _ | .bool true | .bool false | .nil | .tile _ _ | .read _ | .pair _ _ | .rect _
  | .unknown _ => .refl _
  | .format parts => (pieces_below h parts).map _
  | .embed inner => (expression_below h inner).bind fun _ => .refl _
  | .block index => callback_below h index
  | .value _ args => (arguments_below h args).map _
  | .nameOf args => by
      have each := arguments_below h args
      cases args with
      | nil => exact each.map _
      | cons e _ =>
        cases e with
        | pair x y =>
          exact (expression_below h x).bind fun _ => (expression_below h y).bind fun _ => .refl _
        | _ => exact each.map _

theorem pieces_below (h : BodiesBelow s bodies bodies') :
    (es : List Expr) → Below (pieces bodies s es) (pieces bodies' s es)
  | [] => .refl _
  | e :: es => by
      have first := expression_below h e
      have rest := pieces_below h es
      cases e with
      | string _ => exact rest.bind fun _ => .refl _
      | _ => exact first.bind fun _ => rest.bind fun _ => .refl _

theorem arguments_below (h : BodiesBelow s bodies bodies') :
    (es : List Expr) → Below (arguments bodies s es) (arguments bodies' s es)
  | [] => .refl _
  | e :: es => by
      have first := expression_below h e
      have rest := arguments_below h es
      cases e with
      | pair x y =>
        exact (expression_below h x).bind fun _ => (expression_below h y).bind fun _ =>
          rest.bind fun _ => .refl _
      | rect parts => exact (sides_below h _ parts).bind fun _ => rest.bind fun _ => .refl _
      | _ => exact first.bind fun _ => rest.bind fun _ => .refl _

theorem sides_below (h : BodiesBelow s bodies bodies') : (n : Nat) → (es : List Expr) →
    Below (sides bodies s n es) (sides bodies' s n es)
  | 0, [] | 0, _ :: _ | _ + 1, [] => .refl _
  | n + 1, e :: es =>
      (expression_below h e).bind fun _ => (sides_below h n es).bind fun _ => .refl _

end

theorem comparison_below (h : BodiesBelow s bodies bodies') (c : Comparison) :
    Below (comparison bodies s c) (comparison bodies' s c) := by
  have last : ∀ left : String, Below
      (do
        let right ← expression bodies s c.right
        return s!"{left} {c.op.symbol} {right}")
      (do
        let right ← expression bodies' s c.right
        return s!"{left} {c.op.symbol} {right}") :=
    fun _ => (expression_below h c.right).bind fun _ => .refl _
  obtain ⟨op, left, right⟩ := c
  cases left with
  | string name =>
    rw [comparison, comparison]
    by_cases hname : Lua.isToken name
    · simp only [hname, if_true]
      exact (Below.refl _).bind last
    · simp only [hname]
      exact (Below.refl _).bind last
  | _ => exact (expression_below h _).bind last

theorem branches_below (h : BodiesBelow s bodies bodies') : (clauses : List Clause) →
    Below (branches bodies s clauses) (branches bodies' s clauses)
  | [] => .refl _
  | .elseIf c block :: clauses => (comparison_below h c).bind fun _ => (h .branch block).bind fun _ =>
      (branches_below h clauses).bind fun _ => .refl _
  | .otherwise block :: clauses => (h .branch block).bind fun _ =>
      (branches_below h clauses).bind fun _ => .refl _

theorem call_below (h : BodiesBelow s bodies bodies') (name : Expr) :
    Below (call bodies s name) (call bodies' s name) := by
  refine (Below.refl _).bind fun _ => Below.bind ?_ fun _ => .refl _
  cases name with
  | string _ => exact .refl _
  | _ => exact (expression_below h _).bind fun _ => .refl _

theorem mimicLookup_below (h : BodiesBelow s bodies bodies') (target : Expr) :
    Below (mimicLookup bodies s target) (mimicLookup bodies' s target) := by
  rw [mimicLookup, mimicLookup]
  cases s.foldTile? target <;> exact (expression_below h _).bind fun _ => .refl _

theorem told_below (h : BodiesBelow s bodies bodies') (label actor guard : String) (block : Nat) :
    Below (told bodies s label actor guard block) (told bodies' s label actor guard block) :=
  (h .told block).bind fun _ => .refl _

theorem tell_below (h : BodiesBelow s bodies bodies') (target : TellTarget) (block : Nat) :
    Below (tell bodies s target block) (tell bodies' s target block) := by
  cases target with
  | place x y =>
    exact (expression_below h y).bind fun _ => (expression_below h x).bind fun _ =>
      told_below h _ _ _ block
  | named name => exact (arguments_below h _).map _
  | _ => exact told_below h _ _ _ block

theorem line_below (h : BodiesBelow s bodies bodies') (c : Command) :
    Below (line bodies s c) (line bodies' s c) := by
  cases c with
  | noop | comment | continuedComment | done | increment _ | decrement _ | unknown _ => exact .refl _
  | assign target op value =>
    exact Below.map _ <| (Below.refl _).bind fun _ => (expression_below h value).bind fun _ => .refl _
  | cond c block clauses =>
    exact Below.map _ <| (comparison_below h c).bind fun _ => (h .branch block).bind fun _ =>
      (branches_below h clauses).bind fun _ => .refl _
  | loop c block =>
    exact Below.map _ <| (comparison_below h c).bind fun _ => (h .branch block).bind fun _ => .refl _
  | call name => exact (call_below h name).map _
  | emit name => exact (expression_below h name).bind fun _ => .refl _
  | mimic target => exact ((mimicLookup_below h target).bind fun _ => .refl _).map _
  | tell target block => exact (tell_below h target block).map _
  | effect op args => exact (arguments_below h args).bind fun _ => .refl _

theorem commandsWith_below (h : BodiesBelow s bodies bodies') : (cs : Block) →
    Below (commandsWith bodies s cs) (commandsWith bodies' s cs)
  | [] => .refl _
  | c :: cs => ((line_below h c).bind fun _ => .refl _).bind fun _ =>
      (commandsWith_below h cs).bind fun _ => .refl _

theorem blockWith_below (h : BodiesBelow s bodies bodies') (isFunction : Bool) (cs : Block) :
    Below (blockWith bodies s isFunction cs) (blockWith bodies' s isFunction cs) := by
  cases isFunction with
  | false => exact commandsWith_below h cs
  | true => exact (commandsWith_below h cs).functionScope.bind fun _ => .refl _

/-- By induction on the levels: with none left, only a block that is missing is settled. -/
theorem bodyWithin_below : {levels levels' : Nat} → levels ≤ levels' → (s : Scope) →
    (isFunction : Bool) → (index : Nat) →
      Below (bodyWithin levels s isFunction index) (bodyWithin levels' s isFunction index)
  | levels, levels', hle, s, isFunction, index => by
    cases hcs : s.blocks[index]? with
    | none =>
      rw [bodyWithin_missing hcs, bodyWithin_missing hcs]
      exact .refl _
    | some cs =>
      cases levels with
      | zero =>
        intro settled
        refine absurd ?_ (settled index)
        rw [bodyWithin, Scope.blockAt, hcs]
        rfl
      | succ n =>
        obtain ⟨m, rfl⟩ : ∃ m, levels' = m + 1 := ⟨levels' - 1, by omega⟩
        rw [bodyWithin_succ hcs, bodyWithin_succ hcs]
        exact blockWith_below (fun _ _ => bodyWithin_below (Nat.le_of_succ_le_succ hle) _ _ _) _ cs

/-- A body that compiles is the block at its index, compiled as such: the level that it is short of is not
missed. -/
theorem body_eq_block {isFunction : Bool} {index : Nat} {t : String}
    (h : (body s isFunction index).result = .ok t) :
    ∃ cs, s.blocks[index]? = some cs ∧ body s isFunction index = block s isFunction cs := by
  obtain ⟨n, cs, hn, hcs, heq⟩ := bodyWithin_eq_ok h
  -- the block itself takes one of the levels; the blocks in it settle with the others
  have below : BodiesBelow s (bodyWithin n) body := by
    intro place i
    rw [body, Place.blocks_scope]
    exact bodyWithin_below (by omega) _ _ _
  have compiles : (blockWith (bodyWithin n) s isFunction cs).result = .ok t := by
    rw [← heq]
    exact h
  refine ⟨cs, hcs, heq.trans ?_⟩
  exact (blockWith_below below isFunction cs (.of_ok compiles)).symm

end Compile
end GameScript
