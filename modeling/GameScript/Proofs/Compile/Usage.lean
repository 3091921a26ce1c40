import GameScript.Proofs.Compile.Declarations
import GameScript.Proofs.Mimic.Candidates

/-! The variables of a game. A variable gets into the table as a side effect of compiling the read or the
write that asks for it, at any depth of blocks in one another; where all compiles, the table holds what the
first scripts of the game ask for, apart from dotted names. -/

namespace GameScript

open Lua

namespace Outcome

variable {α β : Type}

/-- A sequence that has a result records what both of its parts record. -/
theorem exists_of_bind_eq_ok {x : Outcome α} {f : α → Outcome β} {b : β}
    (h : (x >>= f).result = .ok b) : ∃ a, x.result = .ok a ∧ (f a).result = .ok b ∧
      ∀ e, e ∈ (x >>= f).log ↔ e ∈ x.log ∨ e ∈ (f a).log := by
  obtain ⟨a, hx, hf⟩ := result_bind_eq_ok_iff.mp h
  refine ⟨a, hx, hf, fun e => ?_⟩
  rw [bind_of_ok hx]
  exact List.mem_append

end Outcome

namespace Ledger

theorem mem_usage_record {l : Ledger} {e : Entry} {v : String} :
    v ∈ Table.keys (l.record e).usage ↔ v ∈ Table.keys l.usage ∨ e = .use v := by
  cases e with
  | use name =>
    rw [record, Table.keys_put, Entry.use.injEq]
    split_ifs with h
    · exact ⟨.inl, fun hv => hv.elim id fun hv => hv ▸ h⟩
    · rw [List.mem_append, List.mem_singleton, eq_comm]
  | note d => simp [record, usage_note]
  | declare d =>
    rw [record]
    split <;> simp [usage_note]
  | candidate c => simp [record]

theorem mem_usage_recordAll {v : String} : {l : Ledger} → {log : List Entry} →
    (v ∈ Table.keys (l.recordAll log).usage ↔ v ∈ Table.keys l.usage ∨ .use v ∈ log)
  | l, [] => by simp [recordAll]
  | l, e :: log => by
    have ih : v ∈ Table.keys ((l.record e).recordAll log).usage ↔
        v ∈ Table.keys (l.record e).usage ∨ .use v ∈ log := mem_usage_recordAll
    rw [mem_usage_record, or_assoc] at ih
    rw [List.mem_cons, @eq_comm _ (Entry.use v)]
    exact ih

end Ledger

namespace Compile

/-- The name that an action asks the storage of. -/
def Action.asks? : Action → Option String
  | read name | write name => some name
  | call | unknownExpression _ | unknownCommand _ | enter _ _ => none

/-- An action is reached from some commands: it stands in one of them, or it is reached from a block that
one of them enters. -/
inductive Reached (blocks : List Block) : Block → Action → Prop where
  | here {cs : Block} {c : Command} {a : Action} : c ∈ cs → a ∈ c.actions → Reached blocks cs a
  | inside {cs body : Block} {c : Command} {place : Place} {i : Nat} {a : Action} : c ∈ cs →
      .enter place i ∈ c.actions → blocks[i]? = some body → Reached blocks body a →
      Reached blocks cs a

def Asks (blocks : List Block) (cs : Block) (v : String) : Prop :=
  ∃ a, Reached blocks cs a ∧ a.asks? = some v

variable {bodies : BodyCompiler} {s : Scope} {v : String}

theorem use_mem_readVariable {name : String} :
    .use v ∈ (readVariable name).log ↔ name = v ∧ isDotted v = false := by
  rw [readVariable_eq]
  cases h : Accessor.ofName? name with
  | some a =>
    have dotted := isDotted_of_ofName? h
    simp only [List.mem_map, reduceCtorEq, and_false, exists_false, false_iff]
    rintro ⟨rfl, hv⟩
    rw [dotted] at hv
    cases hv
  | none =>
    by_cases hdot : isDotted name = true
    · rw [if_pos hdot]
      simp only [List.not_mem_nil, false_iff]
      rintro ⟨rfl, hv⟩
      rw [hdot] at hv
      cases hv
    · rw [if_neg hdot]
      simp only [List.mem_singleton, Entry.use.injEq]
      refine ⟨fun h => ⟨h.symm, h ▸ eq_false_of_ne_true hdot⟩, fun h => h.1.symm⟩

/-- The names that a write is refused for are dotted, so a write is recorded as a read is. -/
theorem use_mem_writeTarget {name : String} :
    .use v ∈ (writeTarget name).log ↔ name = v ∧ isDotted v = false := by
  rw [writeTarget]
  split_ifs with h
  · obtain ⟨a, ha⟩ := Option.isSome_iff_exists.mp h
    have dotted := isDotted_of_ofName? ha
    simp only [Outcome.fail, List.not_mem_nil, false_iff]
    rintro ⟨rfl, hv⟩
    rw [dotted] at hv
    cases hv
  · exact use_mem_readVariable

theorem Action.use_mem_run {a : Action} :
    .use v ∈ (a.run bodies s).log ↔ (isDotted v = false ∧ a.asks? = some v) ∨
      ∃ place index, a = .enter place index ∧
        .use v ∈ (bodies (place.scope s) place.isFunction index).log := by
  cases a with
  | read name => simp [Action.run, asks?, use_mem_readVariable, and_comm]
  | write name => simp [Action.run, asks?, use_mem_writeTarget, and_comm]
  | enter place index => simp [Action.run, asks?]
  | _ => simp [Action.run, asks?, Outcome.declare, Outcome.note, Outcome.entry]

/-- A block compiles where its commands do, as a function of its own or not. -/
theorem exists_of_blockWith_eq_ok {isFunction : Bool} {cs : Block} {t : String}
    (h : (blockWith bodies s isFunction cs).result = .ok t) :
    ∃ t, (commandsWith bodies s cs).result = .ok t := by
  cases isFunction with
  | false => exact ⟨t, h⟩
  | true =>
    obtain ⟨lines, hlines, -⟩ := blockWith_function_eq_ok.mp h
    exact ⟨lines, hlines⟩

theorem use_mem_blockWith {isFunction : Bool} {cs : Block} :
    .use v ∈ (blockWith bodies s isFunction cs).log ↔ .use v ∈ (commandsWith bodies s cs).log := by
  rw [blockWith_log]
  split <;> simp [Entry.declaration?]

/-- Whatever block a compiler of blocks compiles, it records the use of the variables that the block and the
blocks entered from it ask for. -/
def Tallies (v : String) (bodies : BodyCompiler) : Prop :=
  ∀ (s : Scope) (isFunction : Bool) (index : Nat) (t : String),
    (bodies s isFunction index).result = .ok t → ∃ cs, s.blocks[index]? = some cs ∧
      (.use v ∈ (bodies s isFunction index).log ↔ isDotted v = false ∧ Asks s.blocks cs v)

theorem Tallies.commandsWith (hbodies : Tallies v bodies) {cs : Block} {t : String}
    (h : (commandsWith bodies s cs).result = .ok t) :
    .use v ∈ (commandsWith bodies s cs).log ↔ isDotted v = false ∧ Asks s.blocks cs v := by
  have performs : Performs bodies s (cs.flatMap Command.actions) (Compile.commandsWith bodies s cs) :=
    commandsWith_performs cs
  have entered : ∀ place i, .enter place i ∈ cs.flatMap Command.actions → ∃ body,
      s.blocks[i]? = some body ∧ (.use v ∈ (bodies (place.scope s) place.isFunction i).log ↔
        isDotted v = false ∧ Asks s.blocks body v) := by
    intro place i hi
    obtain ⟨t, ht⟩ : ∃ t, (bodies (place.scope s) place.isFunction i).result = .ok t :=
      Outcome.effects_result_eq_ok.mp (performs.run_eq_ok h _ hi)
    simpa only [Place.blocks_scope] using hbodies _ _ i t ht
  rw [performs.mem_log h]
  constructor
  · rintro ⟨a, ha, hv⟩
    obtain ⟨c, hc, hac⟩ := List.mem_flatMap.mp ha
    rcases Action.use_mem_run.mp hv with ⟨hdot, hasks⟩ | ⟨place, i, rfl, hv⟩
    · exact ⟨hdot, a, .here hc hac, hasks⟩
    · obtain ⟨body, hbody, hiff⟩ := entered place i ha
      obtain ⟨hdot, a, hreached, hasks⟩ := hiff.mp hv
      exact ⟨hdot, a, .inside hc hac hbody hreached, hasks⟩
  · rintro ⟨hdot, a, hreached, hasks⟩
    cases hreached with
    | here hc hac =>
      exact ⟨a, List.mem_flatMap.mpr ⟨_, hc, hac⟩, Action.use_mem_run.mpr (.inl ⟨hdot, hasks⟩)⟩
    | @inside _ body _ place i _ hc hac hbody hreached =>
      have ha := List.mem_flatMap.mpr ⟨_, hc, hac⟩
      obtain ⟨body', hbody', hiff⟩ := entered place i ha
      obtain rfl : body' = body := Option.some.inj (hbody'.symm.trans hbody)
      refine ⟨_, ha, Action.use_mem_run.mpr (.inr ⟨place, i, rfl, ?_⟩)⟩
      exact hiff.mpr ⟨hdot, a, hreached, hasks⟩

theorem tallies_bodyWithin (v : String) : (levels : Nat) → Tallies v (bodyWithin levels)
  | 0, _, _, _, _, h => by
    obtain ⟨n, _, hn, -⟩ := bodyWithin_eq_ok h
    cases hn
  | levels + 1, s, isFunction, index, t, h => by
    obtain ⟨n, cs, hn, hcs, heq⟩ := bodyWithin_eq_ok h
    obtain rfl : levels = n := Nat.succ.inj hn
    rw [heq] at h ⊢
    obtain ⟨lines, hlines⟩ := exists_of_blockWith_eq_ok h
    exact ⟨cs, hcs, use_mem_blockWith.trans ((tallies_bodyWithin v levels).commandsWith hlines)⟩

end Compile

/-! ### Scripts -/

/-- A script asks for a name: the block of one of its events does. -/
def Script.Asks (x : Script) (v : String) : Prop :=
  ∃ entry ∈ x.events, ∃ cs, x.blocks[entry.2]? = some cs ∧ Compile.Asks x.blocks cs v

namespace Compile

variable {r : Registry} {s : Scope} {v : String}

theorem use_mem_event {script name : String} {index : Nat} {t : String}
    (h : (event s script name index).result = .ok t) :
    .use v ∈ (event s script name index).log ↔
      isDotted v = false ∧ ∃ cs, s.blocks[index]? = some cs ∧ Asks s.blocks cs v := by
  obtain ⟨block, -, h, log⟩ := Outcome.exists_of_bind_eq_ok h
  obtain ⟨body, hbody, -, log'⟩ := Outcome.exists_of_bind_eq_ok h
  obtain ⟨cs, hcs, uses⟩ := tallies_bodyWithin v _ _ _ _ _ hbody
  have start : .use v ∉ (Outcome.ofExcept (s.blockAt index)).log := List.not_mem_nil
  have only : .use v ∈ (event s script name index).log ↔
      .use v ∈ (Compile.body (s.withTarget (scriptObject script)) true index).log := by
    rw [event, log, log']
    cases pureMimic? s block <;> simp [start, Outcome.entry]
  rw [only]
  refine uses.trans (and_congr_right fun _ => ?_)
  constructor
  · exact fun h => ⟨cs, hcs, h⟩
  · rintro ⟨cs', hcs', h⟩
    obtain rfl : cs' = cs := Option.some.inj (hcs'.symm.trans hcs)
    exact h

theorem use_mem_events {script : String} : {es : List (String × Nat)} → {t : String} →
    (events s script es).result = .ok t →
      (.use v ∈ (events s script es).log ↔ isDotted v = false ∧
        ∃ entry ∈ es, ∃ cs, s.blocks[entry.2]? = some cs ∧ Asks s.blocks cs v)
  | [], _, _ => by simp [events]
  | (name, index) :: es, t, h => by
    obtain ⟨_, hevent, h, log⟩ := Outcome.exists_of_bind_eq_ok h
    obtain ⟨_, hrest, -, log'⟩ := Outcome.exists_of_bind_eq_ok h
    have first := use_mem_event (v := v) hevent
    have rest := use_mem_events hrest
    rw [events, log, log', first, rest]
    simp only [Outcome.pure_eq, List.not_mem_nil, or_false, List.exists_mem_cons_iff, and_or_left]

theorem use_mem_script {x : Script} {name t : String} (hname : r.nameOf? x.key = some name)
    (h : (script r s x).result = .ok t) :
    .use v ∈ (script r s x).log ↔ isDotted v = false ∧ x.Asks v := by
  rw [script, hname] at h ⊢
  obtain ⟨_, hevents, -, log⟩ := Outcome.exists_of_bind_eq_ok h
  rw [log, use_mem_events hevents]
  simp [Script.Asks, Scope.withBlocks]

theorem use_mem_scriptList : {xs : List Script} → {t : String} →
    (∀ x ∈ xs, ∃ name, r.nameOf? x.key = some name) → (scriptList r s xs).result = .ok t →
      (.use v ∈ (scriptList r s xs).log ↔ isDotted v = false ∧ ∃ x ∈ xs, x.Asks v)
  | [], _, _, _ => by simp [scriptList]
  | x :: xs, t, named, h => by
    obtain ⟨⟨name, hname⟩, named⟩ := List.forall_mem_cons.mp named
    obtain ⟨_, hx, h, log⟩ := Outcome.exists_of_bind_eq_ok h
    obtain ⟨_, hxs, -, log'⟩ := Outcome.exists_of_bind_eq_ok h
    have first := use_mem_script (v := v) hname hx
    have rest := use_mem_scriptList named hxs
    rw [scriptList, log, log', first, rest]
    simp only [Outcome.pure_eq, List.not_mem_nil, or_false, List.exists_mem_cons_iff, and_or_left]

end Compile

namespace Game

/-- A name is asked for in a game: one of its first scripts asks for it. -/
def Asks (g : Game) (v : String) : Prop := ∃ x ∈ firstScripts [] g.scripts, x.Asks v

variable {g : Game} {options : Options} {p : Assembly.Parts} {v : String}

theorem use_mem_outcome (hp : (g.outcome options).result = .ok p) :
    .use v ∈ (g.outcome options).log ↔ isDotted v = false ∧ g.Asks v := by
  obtain ⟨tiles, -, h, log⟩ := Outcome.exists_of_bind_eq_ok hp
  obtain ⟨r, hr, h, log'⟩ := Outcome.exists_of_bind_eq_ok h
  obtain ⟨_, hscripts, -, log''⟩ := Outcome.exists_of_bind_eq_ok h
  have noTile : .use v ∉ (Assembly.tileTable g (Atlas.build g.frames)).log :=
    fun h => Assembly.tileTable_records g _ _ h
  have noName : .use v ∉ (Registry.build g).log := fun h => Registry.build_records g _ h
  have named : ∀ x ∈ firstScripts [] g.scripts, ∃ name, r.nameOf? x.key = some name := by
    intro x hx
    obtain ⟨name, hname, -⟩ := (Registry.build_spec hr).2 x hx
    exact ⟨name, hname⟩
  rw [outcome, Assembly.parts, log, log', log'']
  simp only [noTile, noName, false_or, Outcome.pure_eq, List.not_mem_nil, or_false]
  exact Compile.use_mem_scriptList named hscripts

/-- Where a game compiles, its table of variables holds what it asks for, dotted names apart. -/
theorem mem_usage (hp : (g.outcome options).result = .ok p) :
    v ∈ Table.keys (g.ledger options).usage ↔ isDotted v = false ∧ g.Asks v := by
  rw [ledger, Ledger.mem_usage_recordAll, use_mem_outcome hp]
  simp [Ledger.empty, Table.keys]

theorem nodup_usage (options : Options) (g : Game) :
    (Table.keys (g.ledger options).usage).Nodup :=
  Ledger.nodup_usage_recordAll _ List.nodup_nil

end Game
end GameScript
