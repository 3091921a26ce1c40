import GameScript.Proofs.Compile.Usage
import GameScript.Proofs.Compile.Independence

/-! Writes to the names of the runtime. A write is refused where it is compiled, and no construct leaves out
a body or goes on after one that failed; so where a game compiles, no command that it comes to, however deep
in blocks of blocks, writes a reserved name. -/

namespace GameScript

open Compile Lua

/-! ### The bodies of commands -/

def Clause.block : Clause → Nat
  | .elseIf _ block | .otherwise block => block

def Expr.block? : Expr → Option Nat
  | .block index => some index
  | _ => none

/-- The blocks that a command has as its branches, its loop, what it tells, or directly as arguments. -/
def Command.bodies : Command → List Nat
  | .cond _ block clauses => block :: clauses.map Clause.block
  | .loop _ block | .tell _ block => [block]
  | .effect _ args => args.filterMap Expr.block?
  | .noop | .comment | .continuedComment | .done | .assign _ _ _ | .increment _ | .decrement _
  | .call _ | .emit _ | .mimic _ | .unknown _ => []

/-- A command stands in a block, or in a body of its commands at any depth. -/
inductive Holds (blocks : List Block) : Block → Command → Prop where
  | here {cs : Block} {c : Command} : c ∈ cs → Holds blocks cs c
  | inside {cs body : Block} {c d : Command} {i : Nat} : c ∈ cs → i ∈ c.bodies →
      blocks[i]? = some body → Holds blocks body d → Holds blocks cs d

theorem Expr.enter_mem_argumentActions {i : Nat} : {args : List Expr} → .block i ∈ args →
    .enter .callback i ∈ argumentActions args
  | e :: args, h => by
    rcases List.mem_cons.mp h with rfl | h
    · exact List.mem_append_left _ (List.mem_singleton.mpr rfl)
    · have rest := enter_mem_argumentActions h
      cases e <;> exact List.mem_append_right _ rest

theorem Clause.enter_mem_actions (c : Clause) : .enter .branch c.block ∈ c.actions := by
  cases c with
  | elseIf c block => exact List.mem_append_right _ (List.mem_singleton.mpr rfl)
  | otherwise block => exact List.mem_singleton.mpr rfl

theorem TellTarget.enter_mem_actions (t : TellTarget) (i : Nat) :
    ∃ place, .enter place i ∈ t.actions i := by
  cases t with
  | place x y => exact ⟨.told, List.mem_append_right _ (List.mem_singleton.mpr rfl)⟩
  | named name =>
    exact ⟨.callback, Expr.enter_mem_argumentActions (List.mem_cons_of_mem _ List.mem_cons_self)⟩
  | _ => exact ⟨.told, List.mem_singleton.mpr rfl⟩

namespace Command

variable {c : Command}

/-- Compiling a command enters each of its bodies. -/
theorem enter_mem_actions {i : Nat} (h : i ∈ c.bodies) : ∃ place, .enter place i ∈ c.actions := by
  cases c with
  | cond c block clauses =>
    refine ⟨.branch, List.mem_append_right _ ?_⟩
    rcases List.mem_cons.mp h with rfl | h
    · exact List.mem_cons_self
    · obtain ⟨clause, hclause, rfl⟩ := List.mem_map.mp h
      exact List.mem_cons_of_mem _ (List.mem_flatMap.mpr ⟨clause, hclause, clause.enter_mem_actions⟩)
  | loop c block =>
    obtain rfl : i = block := List.mem_singleton.mp h
    exact ⟨.branch, List.mem_append_right _ (List.mem_singleton.mpr rfl)⟩
  | tell target block =>
    obtain rfl : i = block := List.mem_singleton.mp h
    exact target.enter_mem_actions i
  | effect op args =>
    obtain ⟨e, he, hblock⟩ := List.mem_filterMap.mp h
    cases e with
    | block j =>
      obtain rfl : j = i := Option.some.inj hblock
      exact ⟨.callback, Expr.enter_mem_argumentActions he⟩
    | _ => cases hblock
  | _ => cases h

theorem write_mem_actions {name : String} (h : c.target? = some name) : .write name ∈ c.actions := by
  cases c with
  | assign target op value =>
    obtain rfl : target = name := Option.some.inj h
    exact List.mem_cons_self
  | increment target | decrement target =>
    obtain rfl : target = name := Option.some.inj h
    exact List.mem_singleton.mpr rfl
  | _ => cases h

end Command

/-- From commands that hold a write, the write is reached. -/
theorem Holds.reached {blocks : List Block} {cs : Block} {c : Command} {name : String}
    (h : Holds blocks cs c) (hname : c.target? = some name) : Reached blocks cs (.write name) := by
  induction h with
  | here hc => exact .here hc (Command.write_mem_actions hname)
  | inside hc hi hbody _ ih =>
    obtain ⟨place, henter⟩ := Command.enter_mem_actions hi
    exact .inside hc henter hbody (ih hname)

/-! ### Writes that compile -/

namespace Compile

variable {s : Scope} {name : String}

theorem not_reserved_of_run {bodies : BodyCompiler}
    (h : (Action.run bodies s (.write name)).result = .ok ()) : isReservedName name = false := by
  obtain ⟨t, ht⟩ := Outcome.effects_result_eq_ok.mp h
  rw [writeTarget_eq] at ht
  by_contra hname
  rw [if_pos (eq_true_of_ne_false hname)] at ht
  cases ht

/-- Where commands compile, every write that they reach is to a name that is not reserved: a body that does
not compile leaves nothing that does. -/
theorem not_reserved_of_reached {blocks : List Block} {cs : Block}
    (hreached : Reached blocks cs (.write name)) : ∀ {levels : Nat} {s : Scope} {t : String},
      s.blocks = blocks → (commandsWith (bodyWithin levels) s cs).result = .ok t →
        isReservedName name = false := by
  -- the write stays the same on the way to it; the commands, the scope and the levels do not
  generalize ha : Action.write name = a at hreached
  induction hreached with
  | @here cs c _ hc hac =>
    intro levels s t _ h
    subst ha
    exact not_reserved_of_run
      ((commandsWith_performs cs).run_eq_ok h _ (List.mem_flatMap.mpr ⟨c, hc, hac⟩))
  | @inside cs body c place i _ hc henter hbody _ ih =>
    intro levels s t hs h
    obtain ⟨t', ht'⟩ := Outcome.effects_result_eq_ok.mp
      ((commandsWith_performs cs).run_eq_ok h _ (List.mem_flatMap.mpr ⟨c, hc, henter⟩))
    obtain ⟨n, body', rfl, hbody', heq⟩ := bodyWithin_eq_ok ht'
    rw [Place.blocks_scope, hs, hbody] at hbody'
    obtain rfl : body = body' := Option.some.inj hbody'
    rw [heq] at ht'
    obtain ⟨lines, hlines⟩ := exists_of_blockWith_eq_ok ht'
    exact ih ha ((place.blocks_scope s).trans hs) hlines

theorem event_eq_ok {script event t : String} {index : Nat}
    (h : (Compile.event s script event index).result = .ok t) :
    ∃ body, (Compile.body (s.withTarget (scriptObject script)) true index).result = .ok body := by
  obtain ⟨cs, -, h⟩ := Outcome.result_bind_eq_ok_iff.mp h
  obtain ⟨body, hbody, -⟩ := Outcome.result_bind_eq_ok_iff.mp h
  exact ⟨body, hbody⟩

theorem event_eq_ok_of_events {script : String} : {es : List (String × Nat)} → {t : String} →
    (events s script es).result = .ok t →
      ∀ entry ∈ es, ∃ t, (event s script entry.1 entry.2).result = .ok t
  | [], _, _ => by simp
  | (event, index) :: es, _, h => by
    obtain ⟨t, hevent, h⟩ := Outcome.result_bind_eq_ok_iff.mp h
    obtain ⟨ts, hes, -⟩ := Outcome.result_bind_eq_ok_iff.mp h
    exact List.forall_mem_cons.mpr ⟨⟨t, hevent⟩, event_eq_ok_of_events hes⟩

end Compile

/-- A command that the script comes to, from the block of one of its events, writes a reserved name. -/
def Script.WritesReserved (x : Script) : Prop :=
  ∃ entry ∈ x.events, ∃ cs, x.blocks[entry.2]? = some cs ∧
    ∃ c name, Holds x.blocks cs c ∧ c.target? = some name ∧ isReservedName name = true

theorem Script.not_writesReserved {x : Script} {r : Registry} {s : Scope} {name t : String}
    (hname : r.nameOf? x.key = some name) (h : (Compile.script r s x).result = .ok t) :
    ¬ x.WritesReserved := by
  rintro ⟨entry, hentry, cs, hcs, c, target, hholds, htarget, hreserved⟩
  rw [Compile.script, hname] at h
  obtain ⟨lines, hevents, -⟩ := Outcome.result_bind_eq_ok_iff.mp h
  obtain ⟨_, hevent⟩ := event_eq_ok_of_events hevents entry hentry
  obtain ⟨body, hbody⟩ := event_eq_ok hevent
  obtain ⟨n, cs', hn, hcs', heq⟩ := bodyWithin_eq_ok hbody
  obtain rfl : cs = cs' := Option.some.inj (hcs.symm.trans hcs')
  rw [Compile.body, heq] at hbody
  obtain ⟨lines, hlines⟩ := exists_of_blockWith_eq_ok hbody
  have free := not_reserved_of_reached (hholds.reached htarget) rfl hlines
  rw [hreserved] at free
  cases free

namespace Game

/-- One of the scripts of the game that come first for their kind and id writes a reserved name. -/
def WritesReserved (g : Game) : Prop := ∃ x ∈ firstScripts [] g.scripts, x.WritesReserved

theorem not_writesReserved {g : Game} {options : Options} {product : Product}
    (h : g.compile options = .ok product) : ¬ g.WritesReserved := by
  rintro ⟨x, hx, hwrites⟩
  obtain ⟨p, hp⟩ := outcome_of_compile h
  obtain ⟨name, hname, -⟩ := (Registry.build_spec (registry_of_outcome hp)).2 x hx
  obtain ⟨t, ht⟩ := script_eq_ok_of_scriptList (scripts_of_outcome hp) x hx
  exact Script.not_writesReserved hname ht hwrites

/-- A game that compiles writes no reserved name. One whose scripts are decoded, with no block that reaches
itself, and that does write one is refused for such a name, whatever the options are. -/
theorem reserved_writes_refused :
    (∀ (g : Game) (options : Options) (product : Product), g.compile options = .ok product →
      ¬ g.WritesReserved) ∧
    ∀ (g : Game) (options : Options),
      (∀ x ∈ g.scripts, (∃ r, Script.decode r = .ok x) ∧ Acyclic x.blocks) → g.WritesReserved →
        ∃ name, g.compile options = .error (.reservedName name) ∧ isReservedName name = true ∧
          g.Writes name := by
  refine ⟨fun g options product h => not_writesReserved h, fun g options hscripts hwrites => ?_⟩
  have hscripts' : ∀ x ∈ g.scripts, x.InRange ∧ Acyclic x.blocks := by
    intro x hx
    obtain ⟨⟨r, hr⟩, hacyclic⟩ := hscripts x hx
    exact ⟨Script.refs_lt_of_decode hr, hacyclic⟩
  cases hparts : (Assembly.parts options g (Atlas.build g.frames)).result with
  | ok p =>
    obtain ⟨product, compiles⟩ : ∃ product, g.compile options = .ok product :=
      ⟨_, by rw [compile, hparts]; rfl⟩
    exact absurd hwrites (not_writesReserved compiles)
  | error e =>
    obtain ⟨name, rfl, hname, hwritten⟩ := refused_of_parts hscripts' hparts
    exact ⟨name, by rw [compile, hparts]; rfl, hname, hwritten⟩

/-- A write in what the player is told once the handler's message is over, to a name of the runtime and to
one of the game. -/
theorem reserved_writes_refused_nested :
    let r : ScriptRecord := ⟨0, 0, [
      ("__blocks", .array [
        .array [.array [.string "say", .string "hi", .array [.string "block", .number (.integer 1)]]],
        .array [.array [.string "tell", .array [.string "get", .string "event.player"],
          .array [.string "block", .number (.integer 2)]]],
        .array [.array [.string "inc", .string "event.x"]]]),
      ("load", .array [.string "block", .number (.integer 0)])]⟩
    let x (name : String) : Script := ⟨.global, 0, [("load", 0)],
      [[.effect .say [.string "hi", .block 1]], [.tell .player 2], [.increment name]]⟩
    let g (name : String) : Game := { (default : Game) with scripts := [x name] }
    (Script.decode r = .ok (x "event.x") ∧ Acyclic (x "event.x").blocks ∧ (g "event.x").WritesReserved ∧
      ∃ name, (g "event.x").compile .standard = .error (.reservedName name) ∧
        isReservedName name = true ∧ (g "event.x").Writes name) ∧
    ∃ product, (g "score").compile .standard = .ok product ∧ ¬ (g "score").WritesReserved := by
  intro r x g
  have decoded : Script.decode r = .ok (x "event.x") := rfl
  have acyclic : Acyclic (x "event.x").blocks := Acyclic.of_lt fun i j hij => by
    obtain ⟨cs, hcs, hj⟩ := hij
    match i with
    | 0 =>
      obtain rfl := Option.some.inj hcs
      obtain rfl : j = 1 := by simpa [Block.refs, Command.refs, Expr.listRefs, Expr.refs] using hj
      exact Nat.zero_lt_one
    | 1 =>
      obtain rfl := Option.some.inj hcs
      obtain rfl : j = 2 := by simpa [Block.refs, Command.refs, TellTarget.refs] using hj
      exact Nat.one_lt_two
    | 2 =>
      obtain rfl := Option.some.inj hcs
      simp [Block.refs, Command.refs] at hj
    | _ + 3 => cases hcs
  have writes : (g "event.x").WritesReserved := by
    refine ⟨x "event.x", List.mem_cons_self, ("load", 0), List.mem_cons_self, _, rfl,
      .increment "event.x", "event.x", ?_, rfl, by decide⟩
    exact .inside List.mem_cons_self (i := 1) List.mem_cons_self rfl <|
      .inside List.mem_cons_self (i := 2) List.mem_cons_self rfl (.here List.mem_cons_self)
  refine ⟨⟨decoded, acyclic, writes, ?_⟩, ?_⟩
  · refine reserved_writes_refused.2 _ .standard (fun y hy => ?_) writes
    obtain rfl := List.mem_singleton.mp hy
    exact ⟨⟨r, decoded⟩, acyclic⟩
  · have compiles : ((g "score").compile .standard).toOption.isSome = true := by decide +kernel
    cases h : (g "score").compile .standard with
    | error e =>
      rw [h] at compiles
      cases compiles
    | ok product => exact ⟨product, rfl, reserved_writes_refused.1 _ .standard product h⟩

end Game
end GameScript
