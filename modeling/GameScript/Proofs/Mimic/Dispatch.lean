import GameScript.Proofs.Mimic.Candidates
import Mathlib.Logic.Function.Iterate

/-! Dispatch through handlers that mimic tiles. A table of handlers follows the scripts if it holds only
handlers that dispatch passes through before any folding and lacks none that is needed. Dispatch over
such a table ends where dispatch over the handlers of the scripts ends, and in nothing else. -/

namespace GameScript
namespace Mimic

/-- What every slot holds when the unit runs. -/
abbrev Handlers := Slot → Option Binding

/-- The handlers as the scripts define them, each in its own slot. -/
def defined (r : Registry) : Handlers := fun s => if r.defines s.1 s.2 then some s else none

/-- The handler that an event of a script runs: the one in its slot, or else the catch-all one. -/
def handler? (h : Handlers) (script event : String) : Option Binding :=
  (h (script, event)).or (h (script, Registry.wildcard))

section

variable (r : Registry) (cs : List Candidate)

/-- A handler is a candidate for a tile, and the tile's script has a name. -/
def Hands (b : Binding) (t : String) : Prop :=
  ∃ c ∈ cs, (c.source, c.event) = b ∧ r.nameOf? (.tile, c.tile) = some t

/-- Where dispatch of an event of a script ends: in a handler, which runs under a name of an event, or in
none. A handler that hands on goes on with the tile's script, under the same name. -/
inductive Dispatch (h : Handlers) : Slot → Option (Binding × String) → Prop where
  | missing {s e : String} : handler? h s e = none → Dispatch h (s, e) none
  | final {s e : String} {b : Binding} : handler? h s e = some b → (∀ t, ¬ Hands r cs b t) →
      Dispatch h (s, e) (some (b, e))
  | hand {s e t : String} {b : Binding} {o : Option (Binding × String)} : handler? h s e = some b →
      Hands r cs b t → Dispatch h (t, e) o → Dispatch h (s, e) o

/-- Dispatch of an event goes on from one script to another. -/
def Hop (h : Handlers) (event s t : String) : Prop :=
  ∃ b, handler? h s event = some b ∧ Hands r cs b t

def Diverges (h : Handlers) (s : Slot) : Prop :=
  ∃ path : Nat → String, path 0 = s.1 ∧ ∀ i, Hop r cs h s.2 (path i) (path (i + 1))

/-- Dispatch over the handlers of the scripts passes through a handler. -/
inductive Passes : Slot → Binding → Prop where
  | here {s e : String} {b : Binding} : handler? (defined r) s e = some b → Passes (s, e) b
  | hop {s e t : String} {b b' : Binding} : handler? (defined r) s e = some b → Hands r cs b t →
      Passes (t, e) b' → Passes (s, e) b'

/-- A table holds handlers that dispatch passes through anyway, and has one wherever there was one. -/
structure Follows (h : Handlers) : Prop where
  passes : ∀ s e b, handler? h s e = some b → Passes r cs (s, e) b
  missing : ∀ s e, handler? h s e = none → handler? (defined r) s e = none

/-- No handler is handed on to two scripts. -/
def Single : Prop := ∀ b t t', Hands r cs b t → Hands r cs b t' → t = t'

end

variable {r : Registry} {cs : List Candidate} {h : Handlers}

theorem defined_of_handler? {s e : String} {b : Binding} (hb : handler? (defined r) s e = some b) :
    defined r b = some b := by
  have own : ∀ slot, defined r slot = some b → defined r b = some b := by
    intro slot hslot
    have : slot = b := by
      rw [defined] at hslot
      split_ifs at hslot
      exact Option.some.inj hslot
    rw [← this, hslot, this]
  rcases Option.or_eq_some_iff.mp hb with hb | ⟨-, hb⟩
  · exact own _ hb
  · exact own _ hb

theorem Passes.defined {s : Slot} {b : Binding} (hb : Passes r cs s b) :
    Mimic.defined r b = some b := by
  induction hb with
  | here hb => exact defined_of_handler? hb
  | hop _ _ _ ih => exact ih

/-- Dispatch that goes on from a handler which is passed through. -/
theorem Passes.dispatch {s e t : String} {b : Binding} {o : Option (Binding × String)}
    (hb : Passes r cs (s, e) b) (ht : Hands r cs b t)
    (ho : Dispatch r cs (Mimic.defined r) (t, e) o) : Dispatch r cs (Mimic.defined r) (s, e) o := by
  generalize hslot : (s, e) = slot at hb
  induction hb generalizing s e with
  | here hb =>
    cases hslot
    exact .hand hb ht ho
  | hop hb ht' _ ih =>
    cases hslot
    exact .hand hb ht' (ih ht ho rfl)

theorem Passes.dispatch_final {s e : String} {b : Binding} (hb : Passes r cs (s, e) b)
    (hfinal : ∀ t, ¬ Hands r cs b t) : Dispatch r cs (Mimic.defined r) (s, e) (some (b, e)) := by
  generalize hslot : (s, e) = slot at hb
  induction hb generalizing s e with
  | here hb =>
    cases hslot
    exact .final hb hfinal
  | hop hb ht' _ ih =>
    cases hslot
    exact .hand hb ht' (ih hfinal rfl)

namespace Follows

/-- Dispatch over a table that follows the scripts is dispatch over their handlers with steps left
out. -/
theorem dispatch_defined (hh : Follows r cs h) {s : Slot} {o : Option (Binding × String)}
    (ho : Dispatch r cs h s o) : Dispatch r cs (defined r) s o := by
  induction ho with
  | missing hb => exact .missing (hh.missing _ _ hb)
  | final hb hfinal => exact (hh.passes _ _ _ hb).dispatch_final hfinal
  | hand hb ht _ ih => exact (hh.passes _ _ _ hb).dispatch ht ih

/-- Where dispatch over a table goes on from a handler: nowhere from a final one, and with the tile's
script otherwise. -/
def Rest (r : Registry) (cs : List Candidate) (h : Handlers) (e : String) (b : Binding)
    (o : Option (Binding × String)) : Prop :=
  ((∀ t, ¬ Hands r cs b t) → o = some (b, e)) ∧ ∀ t, Hands r cs b t → Dispatch r cs h (t, e) o

theorem dispatch_of_rest (hh : Follows r cs h) {s e : String} {o : Option (Binding × String)}
    (hsome : handler? (defined r) s e ≠ none)
    (rest : ∀ b, Passes r cs (s, e) b → Rest r cs h e b o) : Dispatch r cs h (s, e) o := by
  cases hb : handler? h s e with
  | none => exact absurd (hh.missing s e hb) hsome
  | some b =>
    obtain ⟨final, hand⟩ := rest b (hh.passes s e b hb)
    by_cases ht : ∃ t, Hands r cs b t
    · obtain ⟨t, ht⟩ := ht
      exact .hand hb ht (hand t ht)
    · have hfinal : ∀ t, ¬ Hands r cs b t := not_exists.mp ht
      rw [final hfinal]
      exact .final hb hfinal

/-- Dispatch over the handlers of the scripts, entered again at any handler that it passes through, ends
in the same place over a table that follows the scripts. -/
theorem dispatch_and_rest (hs : Single r cs) (hh : Follows r cs h) {s : Slot}
    {o : Option (Binding × String)} (ho : Dispatch r cs (defined r) s o) :
    Dispatch r cs h s o ∧ ∀ b, Passes r cs s b → Rest r cs h s.2 b o := by
  induction ho with
  | @missing s e hb =>
    have none : ∀ b, ¬ Passes r cs (s, e) b := by
      intro b hpasses
      cases hpasses with
      | here hb' | hop hb' => rw [hb] at hb'; cases hb'
    refine ⟨.missing ?_, fun b hpasses => absurd hpasses (none b)⟩
    cases hb' : handler? h s e with
    | none => rfl
    | some b => exact absurd (hh.passes s e b hb') (none b)
  | @final s e b hb hfinal =>
    have rest : ∀ b', Passes r cs (s, e) b' → Rest r cs h e b' (some (b, e)) := by
      intro b' hpasses
      cases hpasses with
      | here hb' =>
        obtain rfl : b = b' := Option.some.inj (hb.symm.trans hb')
        exact ⟨fun _ => rfl, fun t ht => absurd ht (hfinal t)⟩
      | hop hb' ht =>
        obtain rfl := Option.some.inj (hb.symm.trans hb')
        exact absurd ht (hfinal _)
    exact ⟨hh.dispatch_of_rest (by rw [hb]; exact Option.some_ne_none b) rest, rest⟩
  | @hand s e t b o hb ht _ ih =>
    have rest : ∀ b', Passes r cs (s, e) b' → Rest r cs h e b' o := by
      intro b' hpasses
      cases hpasses with
      | here hb' =>
        obtain rfl : b = b' := Option.some.inj (hb.symm.trans hb')
        refine ⟨fun hfinal => absurd ht (hfinal t), fun t' ht' => ?_⟩
        rw [hs b t' t ht' ht]
        exact ih.1
      | hop hb' ht' hpasses =>
        obtain rfl := Option.some.inj (hb.symm.trans hb')
        rw [hs b _ t ht' ht] at hpasses
        exact ih.2 b' hpasses
    exact ⟨hh.dispatch_of_rest (by rw [hb]; exact Option.some_ne_none b) rest, rest⟩

theorem dispatch_iff (hs : Single r cs) (hh : Follows r cs h) (s : Slot)
    (o : Option (Binding × String)) : Dispatch r cs h s o ↔ Dispatch r cs (defined r) s o :=
  ⟨hh.dispatch_defined, fun ho => (hh.dispatch_and_rest hs ho).1⟩

end Follows

/-- Dispatch goes on forever exactly where it does not end. -/
theorem diverges_iff (hs : Single r cs) (s : Slot) :
    Diverges r cs h s ↔ ¬ ∃ o, Dispatch r cs h s o := by
  constructor
  · rintro ⟨path, hpath, hops⟩ ⟨o, ho⟩
    induction ho generalizing path with
    | @missing s e hb =>
      obtain ⟨b, hb', -⟩ := hops 0
      rw [hpath, hb] at hb'
      cases hb'
    | @final s e b hb hfinal =>
      obtain ⟨b', hb', ht⟩ := hops 0
      rw [hpath, hb] at hb'
      cases hb'
      exact hfinal _ ht
    | @hand s e t b o hb ht _ ih =>
      refine ih (fun i => path (i + 1)) ?_ fun i => hops (i + 1)
      obtain ⟨b', hb', ht'⟩ := hops 0
      rw [hpath, hb] at hb'
      cases hb'
      exact hs b _ t ht' ht
  · obtain ⟨s, e⟩ := s
    intro hnone
    -- a script from which dispatch does not end goes on to another such script
    have next : ∀ s : {s : String // ¬ ∃ o, Dispatch r cs h (s, e) o},
        ∃ t : {t : String // ¬ ∃ o, Dispatch r cs h (t, e) o}, Hop r cs h e s.1 t.1 := by
      rintro ⟨s, hnone⟩
      cases hb : handler? h s e with
      | none => exact absurd ⟨_, .missing hb⟩ hnone
      | some b =>
        by_cases ht : ∃ t, Hands r cs b t
        · obtain ⟨t, ht⟩ := ht
          refine ⟨⟨t, ?_⟩, b, hb, ht⟩
          rintro ⟨o, ho⟩
          exact hnone ⟨o, .hand hb ht ho⟩
        · exact absurd ⟨_, .final hb (not_exists.mp ht)⟩ hnone
    choose f hf using next
    refine ⟨fun i => (f^[i] ⟨s, hnone⟩).1, rfl, fun i => ?_⟩
    change Hop r cs h e (f^[i] ⟨s, hnone⟩).1 (f^[i + 1] ⟨s, hnone⟩).1
    rw [Function.iterate_succ_apply']
    exact hf _

theorem Follows.diverges_iff (hs : Single r cs) (hh : Follows r cs h) (s : Slot) :
    Diverges r cs h s ↔ Diverges r cs (defined r) s := by
  rw [Mimic.diverges_iff hs, Mimic.diverges_iff hs]
  simp only [hh.dispatch_iff hs s]

end Mimic
end GameScript
