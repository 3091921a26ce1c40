import GameScript.Proofs.Mimic.Dispatch

/-! Folding keeps dispatch. Whatever is folded into a slot is a handler that dispatch of the slot passes
through anyway, and the catch-all slots are never written, so after any number of rounds, of chains that
are not at their end or of cycles, the table follows the scripts. -/

namespace GameScript
namespace Mimic

/-- The assignments carried out: every handler is read before any slot is written. -/
def carryOut (as : List (Slot × Binding)) (h : Handlers) : Handlers :=
  as.foldl (fun h' a => Function.update h' a.1 (h a.2)) h

theorem carryOut_apply (as : List (Slot × Binding)) (distinct : (Table.keys as).Nodup)
    (h : Handlers) (x : Slot) :
    carryOut as h x = match Table.get? as x with
      | some b => h b
      | none => h x := by
  rw [carryOut, Table.foldl_update_apply h as distinct]
  cases Table.get? as x <;> rfl

namespace Slots

theorem row_initial (r : Registry) (x : String) : (initial r).row x =
    ((Table.get? r.events x).getD []).map fun e => (e, (x, e)) := by
  have := Table.get?_map (fun script (events : List String) =>
    events.map fun e => (e, (script, e))) r.events x
  rw [row, initial, this]
  cases Table.get? r.events x <;> rfl

theorem get?_initial (r : Registry) (x y : String) : (initial r).get? x y = defined r (x, y) := by
  rw [get?, row_initial, Table.get?_mapKeys, defined, Registry.defines]
  simp

theorem row_put (s : Slots) (x : String) (row : Table String Binding)
    (written : Table Slot Binding) (x' : String) :
    Slots.row ⟨Table.put s.table x row, written⟩ x' = if x = x' then row else s.row x' := by
  rw [Slots.row, Table.get?_put]
  split_ifs <;> rfl

theorem get?_put (s : Slots) (x y : String) (b : Binding) (written : Table Slot Binding)
    (x' y' : String) :
    Slots.get? ⟨Table.put s.table x (Table.put (s.row x) y b), written⟩ x' y' =
      if (x, y) = (x', y') then some b else s.get? x' y' := by
  rw [get?, row_put]
  by_cases hx : x = x'
  · rw [if_pos hx, Table.get?_put, hx]
    by_cases hy : y = y'
    · rw [if_pos hy, hy, if_pos rfl]
    · rw [if_neg hy, if_neg fun h => hy (Prod.mk.inj h).2]
      rfl
  · rw [if_neg hx, if_neg fun h => hx (Prod.mk.inj h).1]
    rfl

end Slots

/-- A candidate only writes handlers that slots hold into slots, so applying it keeps what such writing keeps. -/
theorem apply_keeps_held {P : Slots → Prop} {Q : Binding → Prop}
    (held : ∀ s, P s → ∀ x, ∀ e ∈ s.row x, Q e.2) (set : ∀ s x y b, P s → Q b → P (s.set x y b)) (r : Registry)
    (c : Candidate) {s : Slots} (h : P s) : P (apply r s c) := by
  have setAll : ∀ (x : String) (entries : Table String Binding) (s : Slots), P s → (∀ e ∈ entries, Q e.2) →
      P (entries.foldl (fun s e => s.set x e.1 e.2) s) := by
    intro x entries
    induction entries with
    | nil => exact fun _ h _ => h
    | cons e entries ih =>
      intro s h hentries
      obtain ⟨he, hentries⟩ := List.forall_mem_cons.mp hentries
      exact ih _ (set s x e.1 e.2 h he) hentries
  have get : ∀ {x y b}, s.get? x y = some b → Q b := fun hb => held s h _ _ (Table.mem_of_get? hb)
  rw [Mimic.apply]
  split
  · exact h
  · split_ifs
    · exact h
    · exact setAll c.source _ s h fun e he => held s h _ e (List.mem_of_mem_filter he)
    · split
      · next b hb =>
        refine set s _ _ b h ?_
        rcases Option.or_eq_some_iff.mp hb with hb | ⟨-, hb⟩
        · exact get hb
        · exact get hb
      · exact h

theorem apply_keeps {P : Slots → Prop} (set : ∀ s x y b, P s → P (s.set x y b)) (r : Registry)
    (c : Candidate) {s : Slots} (h : P s) : P (apply r s c) :=
  apply_keeps_held (Q := fun _ => True) (fun _ _ _ _ _ => trivial) (fun s x y b h _ => set s x y b h) r c h

/-- What every round of folding keeps. -/
structure Folded (r : Registry) (cs : List Candidate) (s : Slots) : Prop where
  /-- Every slot holds what was written last, or what the scripts define. -/
  slots : ∀ x y, s.get? x y = (Table.get? s.written (x, y)).or (defined r (x, y))
  /-- A handler in a slot is one that dispatch of the slot passes through. -/
  rows : ∀ x, ∀ entry ∈ s.row x, Passes r cs (x, entry.1) entry.2
  catchAll : ∀ x, Table.get? s.written (x, Registry.wildcard) = none
  once : (Table.keys s.written).Nodup

namespace Folded

variable {r : Registry} {cs : List Candidate} {s : Slots}

theorem initial (r : Registry) (cs : List Candidate) : Folded r cs (Slots.initial r) where
  slots := Slots.get?_initial r
  rows := by
    intro x entry hentry
    rw [Slots.row_initial] at hentry
    obtain ⟨e, he, rfl⟩ := List.mem_map.mp hentry
    have own : defined r (x, e) = some (x, e) := by
      rw [defined, if_pos]
      rw [Registry.defines]
      simpa using he
    refine .here ?_
    rw [handler?, own]
    rfl
  catchAll := fun _ => rfl
  once := List.nodup_nil

theorem passes (hs : Folded r cs s) {x y : String} {b : Binding} (h : s.get? x y = some b) :
    Passes r cs (x, y) b := hs.rows x _ (Table.mem_of_get? h)

theorem get?_wildcard (hs : Folded r cs s) (x : String) :
    s.get? x Registry.wildcard = defined r (x, Registry.wildcard) := by
  rw [hs.slots, hs.catchAll]
  rfl

theorem defined_eq_none (hs : Folded r cs s) {x y : String} (h : s.get? x y = none) :
    defined r (x, y) = none := by
  rw [hs.slots] at h
  exact (Option.or_eq_none_iff.mp h).2

/-- The handler that a slot and the catch-all slot of a script give is one that dispatch passes
through. -/
theorem passes_handler (hs : Folded r cs s) {x y : String} {b : Binding}
    (h : (s.get? x y).or (s.get? x Registry.wildcard) = some b) : Passes r cs (x, y) b := by
  rcases Option.or_eq_some_iff.mp h with h | ⟨hnone, h⟩
  · exact hs.passes h
  · refine .here ?_
    rw [handler?, hs.defined_eq_none hnone, ← hs.get?_wildcard, h]
    rfl

/-- One write keeps the invariant, if what is written is passed through. -/
theorem set (hs : Folded r cs s) {x y : String} {b : Binding} (hb : Passes r cs (x, y) b)
    (hy : y ≠ Registry.wildcard) : Folded r cs (s.set x y b) := by
  rw [Slots.set]
  split_ifs
  · exact hs
  · refine ⟨?_, ?_, ?_, Table.nodup_keys_put hs.once _ _⟩
    · intro x' y'
      rw [Slots.get?_put, Table.get?_put, hs.slots]
      split_ifs <;> rfl
    · intro x' entry hentry
      rw [Slots.row_put] at hentry
      split_ifs at hentry with hx
      · rcases Table.mem_of_mem_put hentry with ⟨hkey, hvalue⟩ | hentry
        · rw [hkey, hvalue, ← hx]
          exact hb
        · exact hs.rows x' entry (hx ▸ hentry)
      · exact hs.rows x' entry hentry
    · intro x'
      rw [Table.get?_put, if_neg fun h => hy (Prod.mk.inj h).2]
      exact hs.catchAll x'

theorem setAll {x : String} : (entries : List (String × Binding)) → {s : Slots} →
    Folded r cs s → (∀ e ∈ entries, Passes r cs (x, e.1) e.2 ∧ e.1 ≠ Registry.wildcard) →
      Folded r cs (entries.foldl (fun s e => s.set x e.1 e.2) s)
  | [], _, hs, _ => hs
  | _ :: entries, _, hs, h => by
    obtain ⟨⟨hb, hy⟩, hrest⟩ := List.forall_mem_cons.mp h
    exact setAll entries (hs.set hb hy) hrest

/-- A candidate's own handler is passed on to its tile. -/
theorem passes_of_hands {x y t : String} {b : Binding} (hx : defined r (x, y) = some (x, y))
    (ht : Hands r cs (x, y) t) (hb : Passes r cs (t, y) b) : Passes r cs (x, y) b := by
  refine .hop ?_ ht hb
  rw [handler?, hx]
  rfl

theorem apply (hs : Folded r cs s) {c : Candidate} (hc : c ∈ cs)
    (hdefines : r.defines c.source c.event = true) : Folded r cs (apply r s c) := by
  have own : defined r (c.source, c.event) = some (c.source, c.event) := if_pos hdefines
  rw [Mimic.apply]
  split
  · exact hs
  · next t ht =>
    have hands : Hands r cs (c.source, c.event) t := ⟨c, hc, rfl, ht⟩
    split_ifs with hself hwildcard
    · exact hs
    · -- a catch-all candidate takes over the handlers of the tile that it has none for
      refine setAll _ hs fun e he => ?_
      obtain ⟨hrow, hfree⟩ := List.mem_filter.mp he
      have free : r.defines c.source e.1 = false := by simpa using hfree
      refine ⟨.hop ?_ hands (hs.rows t e hrow), fun h => ?_⟩
      · rw [handler?, defined, free, ← hwildcard, own]
        rfl
      · rw [h, ← hwildcard, hdefines] at free
        cases free
    · split
      · next b hb => exact hs.set (passes_of_hands own hands (hs.passes_handler hb)) hwildcard
      · exact hs

theorem round (hdefines : ∀ c ∈ cs, r.defines c.source c.event = true) (hs : Folded r cs s) :
    Folded r cs (round r cs s) := by
  have applyAll : ∀ (cs' : List Candidate) (s : Slots), cs' ⊆ cs → Folded r cs s →
      Folded r cs (cs'.foldl (Mimic.apply r) s) := by
    intro cs'
    induction cs' with
    | nil => intro s _ hs; exact hs
    | cons c cs' ih =>
      intro s hsub hs
      have hc : c ∈ cs := hsub List.mem_cons_self
      exact ih _ (List.subset_of_cons_subset hsub) (hs.apply hc (hdefines c hc))
  exact applyAll cs s (List.Subset.refl cs) hs

theorem rounds (hdefines : ∀ c ∈ cs, r.defines c.source c.event = true) : (n : Nat) → {s : Slots} →
    Folded r cs s → Folded r cs (rounds r cs n s)
  | 0, _, hs => hs
  | n + 1, s, hs => by
    have next := hs.round hdefines
    rw [Mimic.rounds]
    split_ifs
    · exact next
    · exact rounds hdefines n next

/-- Carried out over the handlers of the scripts, the assignments leave in every slot what folding left
in it. -/
theorem carryOut_assignments (hs : Folded r cs s) (x y : String) :
    carryOut (assignments s.written) (defined r) (x, y) = s.get? x y := by
  have distinct : (Table.keys (assignments s.written)).Nodup :=
    hs.once.sublist (List.filter_sublist.map _)
  rw [carryOut_apply _ distinct, hs.slots]
  cases hwritten : Table.get? s.written (x, y) with
  | none =>
    have : Table.get? (assignments s.written) (x, y) = none := by
      rw [Table.get?_eq_none_iff] at hwritten ⊢
      exact fun h => hwritten ((List.filter_sublist.map _).subset h)
    rw [this]
    rfl
  | some b =>
    have hb : defined r b = some b :=
      (hs.passes (by rw [hs.slots, hwritten]; rfl)).defined
    by_cases hown : (x, y) = b
    · have : Table.get? (assignments s.written) (x, y) = none := by
        cases hget : Table.get? (assignments s.written) (x, y) with
        | none => rfl
        | some b' =>
          obtain ⟨hmem, hne⟩ := List.mem_filter.mp (Table.mem_of_get? hget)
          have : b' = b := by
            rw [Table.get?_of_mem hs.once hmem] at hwritten
            exact Option.some.inj hwritten
          simp [hown, this] at hne
      rw [this, hown]
      exact hb
    · have hmem : ((x, y), b) ∈ assignments s.written :=
        List.mem_filter.mpr ⟨Table.mem_of_get? hwritten, by simpa using hown⟩
      rw [Table.get?_of_mem distinct hmem]
      exact hb

/-- The table after the assignments follows the scripts. -/
theorem follows (hs : Folded r cs s) :
    Follows r cs (carryOut (assignments s.written) (defined r)) := by
  refine ⟨fun x y b h => ?_, fun x y h => ?_⟩
  · rw [handler?, hs.carryOut_assignments, hs.carryOut_assignments] at h
    exact hs.passes_handler h
  · rw [handler?, hs.carryOut_assignments, hs.carryOut_assignments] at h
    obtain ⟨hslot, hcatchAll⟩ := Option.or_eq_none_iff.mp h
    rw [handler?, hs.defined_eq_none hslot, hs.defined_eq_none hcatchAll]
    rfl

end Folded
end Mimic

namespace Game

variable {g : Game} {options : Options} {p : Assembly.Parts}

/-- No handler of a loaded game is a candidate for two tiles. -/
theorem single_candidates {text : String} (hg : Game.load text = .ok g)
    (hp : (g.outcome options).result = .ok p) :
    Mimic.Single p.registry (g.ledger options).candidates := by
  rintro b t t' ⟨c, hc, hb, ht⟩ ⟨c', hc', hb', ht'⟩
  obtain ⟨hsource, hevent⟩ := Prod.mk.inj (hb.trans hb'.symm)
  rw [tile_eq_of_mem_candidates hg hp hc hc' hsource hevent, ht'] at ht
  exact (Option.some.inj ht).symm

/-- The handlers of a game after its mimics are folded in a number of rounds. -/
def folded (options : Options) (g : Game) (r : Registry) (passes : Nat) : Mimic.Handlers :=
  Mimic.carryOut (Mimic.assignments (Mimic.rounds r (g.ledger options).candidates passes
    (Mimic.Slots.initial r)).written) (Mimic.defined r)

/-- Folding the mimics of a loaded game that compiles changes nowhere what dispatch ends in, for any
number of rounds: it ends in the same handler under the same name of an event, in none, or not at all,
exactly where it does over the handlers of the scripts. -/
theorem dispatch_folded {text : String} {product : Product} (hg : Game.load text = .ok g)
    (hproduct : g.compile options = .ok product) :
    ∃ r, (Registry.build g).result = .ok r ∧
      ∀ (passes : Nat) (script event : String),
        let candidates := (g.ledger options).candidates
        (∀ o, Mimic.Dispatch r candidates (g.folded options r passes) (script, event) o ↔
          Mimic.Dispatch r candidates (Mimic.defined r) (script, event) o) ∧
        (Mimic.Diverges r candidates (g.folded options r passes) (script, event) ↔
          Mimic.Diverges r candidates (Mimic.defined r) (script, event)) := by
  obtain ⟨p, hp⟩ := outcome_of_compile hproduct
  refine ⟨p.registry, registry_of_outcome hp, fun passes script event => ?_⟩
  have single := single_candidates hg hp
  have follows := (Mimic.Folded.rounds (fun c => defines_of_mem_candidates hp) passes
    (Mimic.Folded.initial p.registry (g.ledger options).candidates)).follows
  exact ⟨follows.dispatch_iff single _, follows.diverges_iff single _⟩

set_option maxRecDepth 100000 in
/-- A tile that mimics another one for every event. -/
theorem dispatch_folded_mimic :
    let text := "[\"g\",null,[0,0,0,0],[],[[0,\"a\"],[1,\"b\"]],[],[],[]," ++
      "[[0,2,\x7b\"__blocks\":[[[\"mimic\",1]]],\"any\":[\"block\",0]\x7d]," ++
      "[1,2,\x7b\"__blocks\":[[[\"log\",\"b\"]]],\"load\":[\"block\",0]\x7d]]]"
    ∃ g product r, Game.load text = .ok g ∧ g.compile .standard = .ok product ∧
      (Registry.build g).result = .ok r ∧ ∀ (passes : Nat) (script event : String),
        let candidates := (g.ledger .standard).candidates
        (∀ o, Mimic.Dispatch r candidates (g.folded .standard r passes) (script, event) o ↔
          Mimic.Dispatch r candidates (Mimic.defined r) (script, event) o) ∧
        (Mimic.Diverges r candidates (g.folded .standard r passes) (script, event) ↔
          Mimic.Diverges r candidates (Mimic.defined r) (script, event)) := by
  intro text
  have compiles : ((Game.load text).toOption.bind fun g =>
      (g.compile .standard).toOption).isSome = true := by decide +kernel
  cases hg : Game.load text with
  | error e =>
    rw [hg] at compiles
    cases compiles
  | ok g =>
    rw [hg] at compiles
    cases hproduct : g.compile .standard with
    | error e =>
      change (g.compile .standard).toOption.isSome = true at compiles
      rw [hproduct] at compiles
      cases compiles
    | ok product =>
      obtain ⟨r, hr, h⟩ := dispatch_folded hg hproduct
      exact ⟨g, product, r, rfl, hproduct, hr, h⟩

end Game
end GameScript
