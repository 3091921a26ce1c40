import GameScript.Proofs.Assembly
import GameScript.Proofs.Document.Events
import GameScript.Proofs.Ledger
import GameScript.Proofs.Registry

/-! The candidates of a game: handlers of its scripts that only mimic a known tile. A handler of a loaded
game is a candidate for one tile at most. -/

namespace GameScript

open Compile

namespace Outcome

variable {α β : Type}

theorem mem_log_bind {x : Outcome α} {f : α → Outcome β} {e : Entry} :
    e ∈ (x >>= f).log ↔ e ∈ x.log ∨ ∃ a, x.result = .ok a ∧ e ∈ (f a).log := by
  obtain ⟨log, e' | a⟩ := x <;> simp

end Outcome

theorem Ledger.mem_candidates_empty {log : List Entry} {c : Candidate} :
    c ∈ (Ledger.empty.recordAll log).candidates ↔ .candidate c ∈ log := by
  rw [candidates_recordAll, Ledger.empty, List.nil_append, List.mem_filterMap]
  constructor
  · rintro ⟨e, he, hc⟩
    cases e <;> simp [Entry.candidate?] at hc
    exact hc ▸ he
  · intro h
    exact ⟨_, h, rfl⟩

namespace Compile

variable {r : Registry} {s : Scope} {c : Candidate}

theorem candidate_of_event {script name : String} {index : Nat}
    (h : .candidate c ∈ (event s script name index).log) :
    ∃ cs tile, s.blocks[index]? = some cs ∧ pureMimic? s cs = some tile ∧ c = ⟨script, name, tile⟩ := by
  rw [event] at h
  rcases Outcome.mem_log_bind.mp h with h | ⟨cs, hcs, h⟩
  · cases h
  rcases Outcome.mem_log_bind.mp h with h | ⟨t, -, h⟩
  · exact absurd (bodyWithin_records _ _ _ _ _ h) id
  have block : s.blocks[index]? = some cs := by
    rw [Outcome.ofExcept, Scope.blockAt] at hcs
    split at hcs
    · cases hcs
      assumption
    · cases hcs
  refine ⟨cs, ?_⟩
  cases hmimic : pureMimic? s cs with
  | none =>
    rw [hmimic] at h
    cases h
  | some tile =>
    rw [hmimic] at h
    obtain rfl : c = ⟨script, name, tile⟩ := by simpa [Outcome.entry] using h
    exact ⟨tile, block, rfl, rfl⟩

theorem candidate_of_events {script : String} : {es : List (String × Nat)} →
    .candidate c ∈ (events s script es).log →
      ∃ entry ∈ es, .candidate c ∈ (event s script entry.1 entry.2).log
  | [], h => nomatch h
  | (name, index) :: es, h => by
    rcases Outcome.mem_log_bind.mp h with h | ⟨t, -, h⟩
    · exact ⟨_, List.mem_cons_self, h⟩
    rcases Outcome.mem_log_bind.mp h with h | ⟨ts, -, h⟩
    · obtain ⟨entry, hentry, h⟩ := candidate_of_events h
      exact ⟨entry, List.mem_cons_of_mem _ hentry, h⟩
    · cases h

theorem candidate_of_scriptList : {xs : List Script} →
    .candidate c ∈ (scriptList r s xs).log → ∃ x ∈ xs, .candidate c ∈ (script r s x).log
  | [], h => nomatch h
  | x :: xs, h => by
    rcases Outcome.mem_log_bind.mp h with h | ⟨t, -, h⟩
    · exact ⟨x, List.mem_cons_self, h⟩
    rcases Outcome.mem_log_bind.mp h with h | ⟨ts, -, h⟩
    · obtain ⟨y, hy, h⟩ := candidate_of_scriptList h
      exact ⟨y, List.mem_cons_of_mem _ hy, h⟩
    · cases h

end Compile

namespace Mimic

/-- A candidate comes from an event of a script: the event's block is one mimic of a known tile. -/
structure Source (r : Registry) (s : Scope) (x : Script) (c : Candidate) : Prop where
  name : r.nameOf? x.key = some c.source
  block : ∃ index cs, (c.event, index) ∈ x.events ∧ x.blocks[index]? = some cs ∧
    pureMimic? (s.withBlocks x.blocks) cs = some c.tile

variable {r : Registry} {s : Scope} {c c' : Candidate} {x : Script}

theorem source_of_script (h : .candidate c ∈ (script r s x).log) : Source r s x c := by
  rw [script] at h
  split at h
  · cases h
  · next name hname =>
    rcases Outcome.mem_log_bind.mp h with h | ⟨t, -, h⟩
    · obtain ⟨⟨event, index⟩, hentry, h⟩ := candidate_of_events h
      obtain ⟨cs, tile, hcs, hmimic, rfl⟩ := candidate_of_event h
      exact ⟨hname, index, cs, hentry, hcs, hmimic⟩
    · cases h

theorem Source.defines (h : Source r s x c) (hx : Registry.Registered r x) :
    r.defines c.source c.event = true := by
  obtain ⟨index, cs, hentry, -⟩ := h.block
  exact hx.defines h.name (List.mem_map.mpr ⟨_, hentry, rfl⟩)

/-- Where the events of a script are distinct, an event is a candidate for one tile only. -/
theorem Source.tile_eq (hx : (x.events.map Prod.fst).Nodup) (h : Source r s x c)
    (h' : Source r s x c') (hevent : c.event = c'.event) : c.tile = c'.tile := by
  obtain ⟨index, cs, hentry, hcs, htile⟩ := h.block
  obtain ⟨index', cs', hentry', hcs', htile'⟩ := h'.block
  obtain rfl : index = index' :=
    congrArg Prod.snd (List.inj_on_of_nodup_map hx hentry hentry' hevent)
  obtain rfl : cs = cs' := Option.some.inj (hcs.symm.trans hcs')
  exact Option.some.inj (htile.symm.trans htile')

end Mimic

namespace Game

variable {g : Game} {options : Options} {p : Assembly.Parts}

theorem registry_of_outcome (h : (g.outcome options).result = .ok p) :
    (Registry.build g).result = .ok p.registry := by
  obtain ⟨tiles, -, h⟩ := Outcome.result_bind_eq_ok_iff.mp h
  obtain ⟨r, hr, h⟩ := Outcome.result_bind_eq_ok_iff.mp h
  obtain ⟨t, -, h⟩ := Outcome.result_bind_eq_ok_iff.mp h
  cases h
  exact hr

theorem scripts_of_outcome (hp : (g.outcome options).result = .ok p) :
    (Compile.scripts p.registry (Assembly.tileScope options g) g.scripts).result = .ok p.scripts := by
  obtain ⟨tiles, -, h⟩ := Outcome.result_bind_eq_ok_iff.mp hp
  obtain ⟨r, -, h⟩ := Outcome.result_bind_eq_ok_iff.mp h
  obtain ⟨t, ht, h⟩ := Outcome.result_bind_eq_ok_iff.mp h
  cases h
  exact ht

/-- Every candidate of a game comes from one of its first scripts. -/
theorem source_of_mem_candidates (hp : (g.outcome options).result = .ok p) {c : Candidate}
    (h : c ∈ (g.ledger options).candidates) : ∃ x ∈ firstScripts [] g.scripts,
      Mimic.Source p.registry (Assembly.tileScope options g) x c := by
  have hr := registry_of_outcome hp
  rcases Outcome.mem_log_bind.mp (Ledger.mem_candidates_empty.mp h) with h | ⟨tiles, -, h⟩
  · exact absurd (Assembly.tileTable_records g _ _ h) id
  rcases Outcome.mem_log_bind.mp h with h | ⟨r, hr', h⟩
  · exact absurd (Registry.build_records g _ h) id
  obtain rfl : p.registry = r := Except.ok.inj (hr.symm.trans hr')
  rcases Outcome.mem_log_bind.mp h with h | ⟨t, -, h⟩
  · obtain ⟨x, hx, h⟩ := candidate_of_scriptList h
    exact ⟨x, hx, Mimic.source_of_script h⟩
  · cases h

/-- A candidate is an event that its source defines. -/
theorem defines_of_mem_candidates (hp : (g.outcome options).result = .ok p) {c : Candidate}
    (h : c ∈ (g.ledger options).candidates) : p.registry.defines c.source c.event = true := by
  obtain ⟨x, hx, source⟩ := source_of_mem_candidates hp h
  exact source.defines ((Registry.build_spec (registry_of_outcome hp)).2 x hx)

/-- Candidates of a loaded game for the same event of the same script are for the same tile. -/
theorem tile_eq_of_mem_candidates {text : String} (hg : Game.load text = .ok g)
    (hp : (g.outcome options).result = .ok p) {c c' : Candidate}
    (h : c ∈ (g.ledger options).candidates) (h' : c' ∈ (g.ledger options).candidates)
    (hsource : c.source = c'.source) (hevent : c.event = c'.event) : c.tile = c'.tile := by
  obtain ⟨x, hx, source⟩ := source_of_mem_candidates hp h
  obtain ⟨y, hy, source'⟩ := source_of_mem_candidates hp h'
  have sound := (Registry.build_spec (registry_of_outcome hp)).1
  have key : x.key = y.key := sound.distinct _ _ _ source.name (hsource ▸ source'.name)
  obtain rfl : x = y := eq_of_mem_firstScripts hx hy key
  exact source.tile_eq (load_events_nodup hg x (mem_of_mem_firstScripts hx)) source' hevent

end Game
end GameScript
