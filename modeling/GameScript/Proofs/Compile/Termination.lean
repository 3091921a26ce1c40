import GameScript.Proofs.Compile.Failure
import GameScript.Proofs.Compile.Levels
import Mathlib.Algebra.Order.BigOperators.Group.List
import Mathlib.Algebra.Order.Group.Nat

/-! Compiles that end. `Ends` is the recursion through the blocks of a script without a bound on its depth,
as a relation: a body ends when all bodies that it enters do, and has the outcome that comes of theirs. It
ends exactly if some number of levels is enough for it, and then with one outcome only. The main statement is
that a script in which no block reaches itself ends, with no more blocks open at any moment than it has, so
that as many levels never run out and more of them make no difference. -/

namespace GameScript

open Compile Outcome

namespace Compile

variable {bodies bodies' : BodyCompiler} {s : Scope} {isFunction : Bool} {index : Nat} {cs : Block}

/-! ### The blocks that are entered -/

/-- With these bodies, compiling the commands comes to the block at an index: nothing before it fails. -/
def Enters (bodies : BodyCompiler) (s : Scope) (cs : Block) (place : Place) (index : Nat) : Prop :=
  ∃ before after, cs.flatMap Command.actions = before ++ .enter place index :: after ∧
    (Action.runAll bodies s before).result = .ok ()

theorem Enters.mem_actions {place : Place} (h : Enters bodies s cs place index) :
    .enter place index ∈ cs.flatMap Command.actions := by
  obtain ⟨before, after, hcs, -⟩ := h
  rw [hcs]
  exact List.mem_append_right _ List.mem_cons_self

theorem mem_refs_of_enter {place : Place} (h : .enter place index ∈ cs.flatMap Command.actions) :
    index ∈ Block.refs cs := by
  obtain ⟨c, hc, h⟩ := List.mem_flatMap.mp h
  exact List.mem_flatMap.mpr ⟨c, hc, c.actions_ofCommand _ h⟩

/-- Actions that fail do so at one of them, when the ones before it have succeeded. -/
theorem Action.exists_first_error {e : CompileError} : {as : List Action} →
    (Action.runAll bodies s as).result = .error e → ∃ before a after, as = before ++ a :: after ∧
      (Action.runAll bodies s before).result = .ok () ∧ (a.run bodies s).result = .error e
  | [], h => nomatch h
  | a :: as, h => by
    cases hr : (a.run bodies s).result with
    | error e' =>
      rw [Action.runAll_cons_error hr] at h
      cases h
      exact ⟨[], a, as, rfl, rfl, hr⟩
    | ok u =>
      rw [Action.runAll_cons_ok hr] at h
      obtain ⟨before, b, after, rfl, hbefore, hb⟩ := exists_first_error h
      exact ⟨a :: before, b, after, rfl, by rw [Action.runAll_cons_ok hr, hbefore], hb⟩

/-- Commands fail with a block that they enter. -/
theorem Enters.error {place : Place} {e : CompileError} (h : Enters bodies s cs place index)
    (he : (bodies (place.scope s) place.isFunction index).result = .error e) :
    (commandsWith bodies s cs).result = .error e := by
  obtain ⟨before, after, hcs, hbefore⟩ := h
  have hrun : ((Action.enter place index).run bodies s).result = .error e := effects_result_eq_error.mpr he
  rw [(commandsWith_performs cs).error_iff, hcs, Action.runAll_append, bind_of_ok hbefore,
    Action.runAll_cons_error hrun]

/-- A block is settled when the blocks that it enters are: it is not short of levels itself. -/
theorem blockWith_settled_iff : (blockWith bodies s isFunction cs).Settled ↔
    ∀ place i, Enters bodies s cs place i → (bodies (place.scope s) place.isFunction i).Settled := by
  constructor
  · intro settled place i hi k hk
    exact settled k (blockWith_error_iff.mpr (hi.error hk))
  · intro settled k hk
    rw [blockWith_error_iff, (commandsWith_performs cs).error_iff] at hk
    obtain ⟨before, a, after, hcs, hbefore, ha⟩ := Action.exists_first_error hk
    rcases Action.run_eq_error ha with ⟨_, _, _, he⟩ | ⟨place, i, rfl, he⟩
    · cases he
    · exact settled place i ⟨before, after, hcs, hbefore⟩ k he

/-! ### Bodies that agree -/

theorem Action.run_below (h : BodiesBelow s bodies bodies') (a : Action) :
    Below (a.run bodies s) (a.run bodies' s) := by
  cases a with
  | enter place index =>
    intro settled
    refine congrArg Outcome.effects (h place index fun i hi => settled i ?_)
    exact effects_result_eq_error.mpr hi
  | _ => exact .refl _

theorem Action.runAll_below (h : BodiesBelow s bodies bodies') : (as : List Action) →
    Below (Action.runAll bodies s as) (Action.runAll bodies' s as)
  | [] => .refl _
  | a :: as => (a.run_below h).bind fun _ => runAll_below h as

theorem Enters.mono {place : Place} (h : BodiesBelow s bodies bodies')
    (hi : Enters bodies s cs place index) : Enters bodies' s cs place index := by
  obtain ⟨before, after, hcs, hbefore⟩ := hi
  refine ⟨before, after, hcs, ?_⟩
  rw [Action.runAll_below h before (.of_ok hbefore), hbefore]

open Classical in
/-- The bodies that two compilers agree on; any other one is short of levels. -/
noncomputable def common (bodies bodies' : BodyCompiler) : BodyCompiler := fun s isFunction index =>
  if bodies s isFunction index = bodies' s isFunction index then bodies s isFunction index
  else Outcome.fail (.cyclicBlock index)

theorem common_below (bodies bodies' : BodyCompiler) (s : Scope) :
    BodiesBelow s (common bodies bodies') bodies ∧ BodiesBelow s (common bodies bodies') bodies' := by
  constructor <;> intro place index settled <;> rw [common] at settled ⊢ <;> split at settled
  · rw [if_pos ‹_›]
  · exact absurd rfl (settled index)
  · rename_i heq
    rw [if_pos heq, heq]
  · exact absurd rfl (settled index)

/-- A block is the same with bodies that agree on what it enters with both of them. -/
theorem blockWith_congr (h : ∀ place i, Enters bodies s cs place i → Enters bodies' s cs place i →
      bodies (place.scope s) place.isFunction i = bodies' (place.scope s) place.isFunction i ∧
        (bodies (place.scope s) place.isFunction i).Settled) :
    blockWith bodies s isFunction cs = blockWith bodies' s isFunction cs := by
  obtain ⟨left, right⟩ := common_below bodies bodies' s
  have settled : (blockWith (common bodies bodies') s isFunction cs).Settled := by
    rw [blockWith_settled_iff]
    intro place i hi
    obtain ⟨heq, hsettled⟩ := h place i (hi.mono left) (hi.mono right)
    rw [common, if_pos heq]
    exact hsettled
  rw [blockWith_below left isFunction cs settled, blockWith_below right isFunction cs settled]

/-! ### Bodies that end -/

/-- The levels that an action needs, given those of the bodies that are entered. -/
def Action.levels (level : Place → Nat → Nat) : Action → Nat
  | .enter place index => level place index
  | _ => 0

theorem missing_settled (index : Nat) :
    (Outcome.fail (.missingBlock index) : Outcome String).Settled := fun _ h => nomatch h

/-- The compile of the body at an index ends, and comes to the outcome. -/
inductive Ends : Scope → Bool → Nat → Outcome String → Prop where
  | missing {s : Scope} {isFunction : Bool} {index : Nat} (h : s.blocks[index]? = none) :
      Ends s isFunction index (Outcome.fail (.missingBlock index))
  | block {s : Scope} {isFunction : Bool} {index : Nat} {cs : Block} (bodies : BodyCompiler)
      (h : s.blocks[index]? = some cs)
      (ends : ∀ place i, Enters bodies s cs place i →
        Ends (place.scope s) place.isFunction i (bodies (place.scope s) place.isFunction i)) :
      Ends s isFunction index (blockWith bodies s isFunction cs)

namespace Ends

variable {out : Outcome String}

theorem settled (h : Ends s isFunction index out) : out.Settled := by
  induction h with
  | @missing _ _ index _ => exact missing_settled index
  | block bodies _ _ ih => exact blockWith_settled_iff.mpr ih

theorem of_settled : (levels : Nat) → {s : Scope} → {isFunction : Bool} → {index : Nat} →
    (bodyWithin levels s isFunction index).Settled →
      Ends s isFunction index (bodyWithin levels s isFunction index)
  | levels, s, isFunction, index, settled => by
    cases hcs : s.blocks[index]? with
    | none =>
      rw [bodyWithin_missing hcs]
      exact .missing hcs
    | some cs =>
      cases levels with
      | zero =>
        refine absurd ?_ (settled index)
        rw [bodyWithin, Scope.blockAt, hcs]
        rfl
      | succ levels =>
        rw [bodyWithin_succ hcs] at settled ⊢
        exact .block _ hcs fun place i hi => of_settled levels (blockWith_settled_iff.mp settled place i hi)

/-- A block needs one level more than the blocks that it enters, which are finitely many. -/
theorem exists_levels (h : Ends s isFunction index out) :
    ∃ levels, bodyWithin levels s isFunction index = out := by
  induction h with
  | missing hnone => exact ⟨0, bodyWithin_missing hnone⟩
  | @block s isFunction index cs bodies hcs ends ih =>
    choose! level hlevel using ih
    refine ⟨((cs.flatMap Command.actions).map (Action.levels level)).sum + 1, ?_⟩
    rw [bodyWithin_succ hcs]
    refine (blockWith_congr fun place i hi _ => ?_).symm
    have hle : level place i ≤ ((cs.flatMap Command.actions).map (Action.levels level)).sum :=
      List.le_sum_of_mem (List.mem_map_of_mem (f := Action.levels level) hi.mem_actions)
    have settled := (ends place i hi).settled
    rw [← hlevel place i hi] at settled
    rw [bodyWithin_below hle _ _ _ settled, hlevel place i hi]
    exact ⟨rfl, (ends place i hi).settled⟩

end Ends

/-- A body ends exactly if it does not run out of some number of levels, and with that outcome. -/
theorem ends_iff {out : Outcome String} : Ends s isFunction index out ↔
    ∃ levels, bodyWithin levels s isFunction index = out ∧ out.Settled := by
  constructor
  · intro h
    obtain ⟨levels, heq⟩ := h.exists_levels
    exact ⟨levels, heq, h.settled⟩
  · rintro ⟨levels, rfl, settled⟩
    exact .of_settled levels settled

/-- A body ends with one outcome only: the larger of two numbers of levels gives both. -/
theorem Ends.unique {out out' : Outcome String} (h : Ends s isFunction index out)
    (h' : Ends s isFunction index out') : out = out' := by
  obtain ⟨levels, rfl, settled⟩ := ends_iff.mp h
  obtain ⟨levels', rfl, settled'⟩ := ends_iff.mp h'
  have up := bodyWithin_below (Nat.le_max_left levels levels') s isFunction index settled
  have up' := bodyWithin_below (Nat.le_max_right levels levels') s isFunction index settled'
  exact up.symm.trans up'

/-! ### Blocks that do not reach themselves -/

/-- With as many levels as there are blocks, a body does not run out of them. -/
theorem body_settled (acyclic : Acyclic s.blocks) : (body s isFunction index).Settled := by
  by_cases hlt : index < s.blocks.length
  · intro k hk
    rcases failure_of_body acyclic hlt hk with ⟨_, he, _⟩ | ⟨_, _, he, _⟩ <;> cases he
  · rw [body, bodyWithin_missing (List.getElem?_eq_none (Nat.le_of_not_lt hlt))]
    exact missing_settled index

/-- More levels than there are blocks make no difference. -/
theorem bodyWithin_eq_body (acyclic : Acyclic s.blocks) {levels : Nat} (h : s.blocks.length ≤ levels) :
    bodyWithin levels s isFunction index = body s isFunction index :=
  bodyWithin_below h s isFunction index (body_settled acyclic)

theorem ends_body (acyclic : Acyclic s.blocks) : Ends s isFunction index (body s isFunction index) :=
  ends_iff.mpr ⟨_, rfl, body_settled acyclic⟩

/-- The indices of the blocks that are open at some moment of the compile of a body, outermost first. A
block is opened when what stands before it has ended and has not failed. -/
inductive Stack : Scope → Bool → Nat → List Nat → Prop where
  | entered {s : Scope} {isFunction : Bool} {i : Nat} {cs : Block} (h : s.blocks[i]? = some cs) :
      Stack s isFunction i [i]
  | inside {s : Scope} {isFunction : Bool} {i j : Nat} {cs : Block} {place : Place}
      {before after : List Action} {stack : List Nat} (bodies : BodyCompiler)
      (h : s.blocks[i]? = some cs)
      (hcs : cs.flatMap Command.actions = before ++ .enter place j :: after)
      (ends : ∀ place k, .enter place k ∈ before →
        Ends (place.scope s) place.isFunction k (bodies (place.scope s) place.isFunction k))
      (ok : (Action.runAll bodies s before).result = .ok ())
      (rest : Stack (place.scope s) place.isFunction j stack) :
      Stack s isFunction i (i :: stack)

namespace Stack

variable {stack : List Nat}

theorem lt_length (h : Stack s isFunction index stack) : index < s.blocks.length := by
  cases h with
  | entered h | inside _ h => exact (List.getElem?_eq_some_iff.mp h).1

/-- By induction on the stack: entering its next block goes one step further on the path. -/
theorem length_le_of_path {blocks : List Block} {visited : List Nat} (h : Stack s isFunction index stack)
    (acyclic : Acyclic blocks) (hs : s.blocks = blocks) (path : Path blocks visited index) :
    visited.length + stack.length ≤ blocks.length := by
  induction h generalizing visited with
  | entered _ => exact path.length_lt
  | @inside s _ i j cs place _ _ stack _ hi hcs _ _ rest ih =>
    have hscope : (place.scope s).blocks = blocks := by rw [Place.blocks_scope, hs]
    have hmem : .enter place j ∈ cs.flatMap Command.actions := by simp [hcs]
    have hij : Refers blocks i j := ⟨cs, hs ▸ hi, mem_refs_of_enter hmem⟩
    have hle := ih hscope (path.step acyclic hij (hscope ▸ rest.lt_length))
    rw [List.length_cons] at hle ⊢
    omega

theorem length_le (h : Stack s isFunction index stack) (acyclic : Acyclic s.blocks) :
    stack.length ≤ s.blocks.length := by
  have := h.length_le_of_path acyclic rfl (.start h.lt_length)
  rwa [List.length_nil, Nat.zero_add] at this

end Stack

/-! ### Scripts that end -/

variable {r : Registry}

def eventWith (bodies : BodyCompiler) (s : Scope) (script event : String) (index : Nat) :
    Outcome String := do
  let cs ← Outcome.ofExcept (s.blockAt index)
  let body ← bodies (s.withTarget (scriptObject script)) true index
  match pureMimic? s cs with
  | some tile => Outcome.entry (.candidate ⟨script, event, tile⟩)
  | none => pure ()
  return s!"{Lua.field (scriptObject script) event} = function({handlerParameters})\n{body}end\n"

def eventsWith (bodies : BodyCompiler) (s : Scope) (script : String) :
    List (String × Nat) → Outcome String
  | [] => return ""
  | (name, index) :: rest => do
      let t ← eventWith bodies s script name index
      let ts ← eventsWith bodies s script rest
      return s!"\n{t}{ts}"

/-- A script, given how its blocks are compiled. -/
def scriptWith (bodies : BodyCompiler) (r : Registry) (s : Scope) (x : Script) : Outcome String :=
  match r.nameOf? x.key with
  | none => return ""
  | some name => do
      let t ← eventsWith bodies (s.withBlocks x.blocks) name x.events
      return registration name x.key ++ t

theorem events_eq_eventsWith (s : Scope) (script : String) : (es : List (String × Nat)) →
    events s script es = eventsWith body s script es
  | [] => rfl
  | (name, index) :: es => by
    rw [events, eventsWith, events_eq_eventsWith s script es]
    rfl

theorem script_eq_scriptWith (r : Registry) (s : Scope) (x : Script) :
    script r s x = scriptWith body r s x := by
  rw [script, scriptWith]
  cases r.nameOf? x.key with
  | none => rfl
  | some name => simp only [events_eq_eventsWith]

theorem eventsWith_congr {script : String} : {es : List (String × Nat)} →
    (∀ e ∈ es, bodies (s.withTarget (scriptObject script)) true e.2 =
      bodies' (s.withTarget (scriptObject script)) true e.2) →
    eventsWith bodies s script es = eventsWith bodies' s script es
  | [], _ => rfl
  | (name, index) :: es, h => by
    rw [eventsWith, eventsWith, eventWith, eventWith, h _ List.mem_cons_self,
      eventsWith_congr fun e he => h e (List.mem_cons_of_mem _ he)]

/-- A script is the same with compiles that agree on the bodies of its handlers. -/
theorem scriptWith_congr {x : Script} (h : ∀ name, r.nameOf? x.key = some name → ∀ e ∈ x.events,
      bodies (handlerScope s x name) true e.2 = bodies' (handlerScope s x name) true e.2) :
    scriptWith bodies r s x = scriptWith bodies' r s x := by
  rw [scriptWith, scriptWith]
  cases hname : r.nameOf? x.key with
  | none => rfl
  | some name => simp only [eventsWith_congr (h name hname)]

theorem script_settled {x : Script} (acyclic : Acyclic x.blocks) : (script r s x).Settled := by
  intro k hk
  obtain ⟨entry, -, ⟨he, -⟩ | ⟨name, h⟩⟩ := script_eq_error hk
  · cases he
  · exact body_settled (s := handlerScope s x name) acyclic k h

/-- A script ends with an outcome if the bodies of all its handlers end, those behind one that fails too, and it
has the outcome with theirs. -/
def ScriptEnds (r : Registry) (s : Scope) (x : Script) (out : Outcome String) : Prop :=
  ∃ bodies, scriptWith bodies r s x = out ∧ ∀ name, r.nameOf? x.key = some name → ∀ e ∈ x.events,
    Ends (handlerScope s x name) true e.2 (bodies (handlerScope s x name) true e.2)

/-- Two ways in which a script ends come to the same. -/
theorem ScriptEnds.unique {x : Script} {out out' : Outcome String} (h : ScriptEnds r s x out)
    (h' : ScriptEnds r s x out') : out = out' := by
  obtain ⟨bodies, rfl, ends⟩ := h
  obtain ⟨bodies', rfl, ends'⟩ := h'
  exact scriptWith_congr fun name hname e he => (ends name hname e he).unique (ends' name hname e he)

theorem scriptEnds_script {x : Script} (acyclic : Acyclic x.blocks) (r : Registry) (s : Scope) :
    ScriptEnds r s x (script r s x) :=
  ⟨body, (script_eq_scriptWith r s x).symm, fun _ _ _ _ => ends_body acyclic⟩

/-- A script in which no block reaches itself ends, with one outcome. At no moment are more blocks open than
the script has; with as many levels it does not run out of them, and with more of them it is the same. -/
theorem script_ends {x : Script} (acyclic : Acyclic x.blocks) (r : Registry) (s : Scope) :
    (∀ out, ScriptEnds r s x out ↔ out = script r s x) ∧
      (∀ name, r.nameOf? x.key = some name → ∀ e ∈ x.events, ∀ stack,
        Stack (handlerScope s x name) true e.2 stack → stack.length ≤ x.blocks.length) ∧
      (script r s x).Settled ∧
      ∀ levels, x.blocks.length ≤ levels → scriptWith (bodyWithin levels) r s x = script r s x := by
  refine ⟨fun out => ⟨fun h => h.unique (scriptEnds_script acyclic r s), ?_⟩, ?_, script_settled acyclic, ?_⟩
  · rintro rfl
    exact scriptEnds_script acyclic r s
  · intro name _ e _ stack hstack
    exact hstack.length_le acyclic
  · intro levels hlevels
    rw [script_eq_scriptWith]
    exact scriptWith_congr fun _ _ _ _ => bodyWithin_eq_body acyclic hlevels

/-- A handler whose loop tells the room a block that its message hands over as well. All of the blocks are
open at once while the room is told. -/
theorem script_ends_shared :
    let record : ScriptRecord := ⟨0, 0, [
      ("__blocks", .array [
        .array [.array [.string "while", .array [.string "lt", .string "n", .number (.integer 1)],
            .array [.string "block", .number (.integer 1)]],
          .array [.string "say", .string "hi", .array [.string "block", .number (.integer 2)]]],
        .array [.array [.string "tell", .array [.string "get", .string "event.room"],
          .array [.string "block", .number (.integer 2)]]],
        .array [.array [.string "inc", .string "n"]]]),
      ("load", .array [.string "block", .number (.integer 0)])]⟩
    let x : Script := ⟨.global, 0, [("load", 0)],
      [[.loop ⟨.lt, .string "n", .number (.integer 1)⟩ 1, .effect .say [.string "hi", .block 2]],
        [.tell .room 2], [.increment "n"]]⟩
    let r : Registry := ⟨[((.global, 0), "game")], [("game", ["load"])]⟩
    let s := Scope.initial .standard
    (Script.decode record = .ok x ∧ Acyclic x.blocks) ∧
      (∀ out, ScriptEnds r s x out ↔ out = script r s x) ∧
      Stack (handlerScope s x "game") true 0 [0, 1, 2] ∧
      (∀ stack, Stack (handlerScope s x "game") true 0 stack → stack.length ≤ 3) ∧
      (script r s x).Settled ∧
      ∀ levels, 3 ≤ levels → scriptWith (bodyWithin levels) r s x = script r s x := by
  intro record x r s
  have acyclic : Acyclic x.blocks := Acyclic.of_lt fun i j hij => by
    obtain ⟨cs, hcs, hj⟩ := hij
    match i with
    | 0 =>
      obtain rfl := Option.some.inj hcs
      obtain rfl | rfl : j = 1 ∨ j = 2 := by
        simpa [Block.refs, Command.refs, Comparison.refs, Expr.refs, Expr.listRefs] using hj
      · exact Nat.zero_lt_one
      · exact Nat.two_pos
    | 1 =>
      obtain rfl := Option.some.inj hcs
      obtain rfl : j = 2 := by simpa [Block.refs, Command.refs, TellTarget.refs] using hj
      exact Nat.one_lt_two
    | 2 =>
      obtain rfl := Option.some.inj hcs
      simp [Block.refs, Command.refs] at hj
    | _ + 3 => cases hcs
  have inner : Stack (Place.branch.scope (handlerScope s x "game")) false 1 [1, 2] := by
    have entered : [Command.tell .room 2].flatMap Command.actions = [] ++ .enter .told 2 :: [] := rfl
    exact .inside body rfl entered (by simp) rfl (.entered rfl)
  have full : Stack (handlerScope s x "game") true 0 [0, 1, 2] := by
    have entered : [Command.loop ⟨.lt, .string "n", .number (.integer 1)⟩ 1,
        .effect .say [.string "hi", .block 2]].flatMap Command.actions =
          [.read "n"] ++ .enter .branch 1 :: [.enter .callback 2] := rfl
    exact .inside body rfl entered (by simp) rfl inner
  obtain ⟨ends, bound, settled, levels⟩ := script_ends acyclic r s
  exact ⟨⟨rfl, acyclic⟩, ends, full, bound "game" rfl ("load", 0) List.mem_cons_self, settled, levels⟩

end Compile
end GameScript
