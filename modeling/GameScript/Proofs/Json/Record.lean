import GameScript.Json.Record

/-! What readers read. `Yields` is a postcondition of a reader: a property of every value that it takes
off the front of a text. A record has a property if its defaults have it and every field that is put in
keeps it. -/

namespace GameScript
namespace Json

namespace Reader

variable {α β : Type} {P : α → Prop} {Q : β → Prop}

/-- Every value that a reader reads has a property. -/
def Yields (P : α → Prop) (r : Reader α) : Prop := ∀ cs a rest, r cs = .ok (a, rest) → P a

namespace Yields

theorem fail (f : Fault) : Yields P (Reader.fail f) := fun _ _ _ h => nomatch h

theorem pure {a : α} (h : P a) : Yields P (Pure.pure a : Reader α) := by
  intro cs a' rest ha
  cases ha
  exact h

theorem bind {r : Reader α} {f : α → Reader β} (hr : Yields P r) (hf : ∀ a, P a → Yields Q (f a)) :
    Yields Q (r >>= f) := by
  intro cs b rest h
  change (r cs >>= fun p => f p.1 p.2) = .ok (b, rest) at h
  cases hcs : r cs with
  | error e =>
    rw [hcs] at h
    cases h
  | ok p =>
    rw [hcs] at h
    exact hf p.1 (hr cs p.1 p.2 hcs) p.2 b rest h

theorem after {r : Reader α} {f : α → Reader β} (hf : ∀ a, Yields Q (f a)) : Yields Q (r >>= f) :=
  bind (P := fun _ => True) (fun _ _ _ _ => trivial) fun a _ => hf a

theorem map {r : Reader α} (f : α → β) (hr : Yields (fun a => Q (f a)) r) : Yields Q (f <$> r) := by
  rw [map_eq_pure_bind]
  exact hr.bind fun a ha => pure ha

theorem mismatch (expected : String) (s : Start) : Yields P (Reader.mismatch expected s) := by
  cases s with
  | null | bool b | digit => exact after fun _ => fail _
  | minus => exact after fun _ => after fun _ => fail _
  | quote => exact after fun _ => after fun _ => fail _
  | bracket | brace | other => exact fail _

theorem itemsOf {item : Reader α} (hitem : Yields P item) : (first : Bool) → (steps : Nat) →
    Yields (fun as => ∀ a ∈ as, P a) (Reader.itemsOf item first steps)
  | _, 0 => fail _
  | first, steps + 1 => by
    rw [Reader.itemsOf]
    refine after fun more => ?_
    cases more with
    | false => exact after fun _ => pure (by simp)
    | true =>
      refine hitem.bind fun a ha => (itemsOf hitem false steps).bind fun as has => pure ?_
      intro b hb
      rcases List.mem_cons.mp hb with rfl | hb
      · exact ha
      · exact has b hb

theorem listOf {item : Nat → Reader α} (hitem : ∀ depth, Yields P (item depth)) (depth : Nat) :
    Yields (fun as => ∀ a ∈ as, P a) (Reader.listOf item depth) := by
  rw [Reader.listOf]
  refine after fun s => ?_
  cases s with
  | bracket =>
    refine after fun depth => ?_
    intro cs
    exact itemsOf (hitem depth) true (cs.length + 1) cs
  | _ => exact mismatch _ _

theorem mapValue {R : Table String Json → Prop} (h : ∀ members, R (Table.ofEntries members))
    (depth : Nat) : Yields R (Reader.mapValue depth) := by
  rw [Reader.mapValue]
  refine after fun s => ?_
  cases s with
  | brace => exact after fun members => pure (h members)
  | _ => exact mismatch _ _

theorem of_run {r : Nat → Reader α} (hr : ∀ depth, Yields P (r depth)) {text : String} {a : α}
    (h : Reader.run r text = .ok a) : P a := by
  rw [Reader.run] at h
  split at h
  · cases h
  · split at h
    · cases h
      exact hr _ _ _ _ ‹_›
    · cases h

end Yields
end Reader

open Reader

variable {σ α : Type} {P : σ → Prop}

/-- Putting the value of a field into a record keeps a property of the record. -/
def Field.Keeps (P : σ → Prop) (f : Field σ) : Prop :=
  ∀ depth, Yields (fun update => ∀ a, P a → P (update a)) (f.read depth)

namespace Record

variable {r : Record σ}

theorem fromMembers_yields (hfields : ∀ f ∈ r.fields, f.Keeps P) {depth : Nat} : (first : Bool) →
    (seen : List String) → {done : σ} → (steps : Nat) → P done →
      Yields P (fromMembers r depth first seen done steps)
  | _, _, _, 0, _ => .fail _
  | first, seen, done, steps + 1, hdone => by
    rw [fromMembers]
    refine .after fun key => ?_
    cases key with
    | none =>
      refine .after fun _ => ?_
      split
      · exact .fail _
      · exact .pure hdone
    | some key =>
      dsimp only
      split
      · exact .after fun _ => .after fun _ => fromMembers_yields hfields false seen steps hdone
      · next f hf =>
        split
        · exact .fail _
        · refine .after fun _ => (hfields f (List.mem_of_find?_eq_some hf) depth).bind ?_
          exact fun update hupdate =>
            fromMembers_yields hfields false (key :: seen) steps (hupdate _ hdone)

theorem fromItems_yields {depth : Nat} : {fields : List (Field σ)} → (∀ f ∈ fields, f.Keeps P) →
    (position : Nat) → {done : σ} → P done → Yields P (fromItems r depth position done fields)
  | [], _, _, _, hdone => .after fun _ => .pure hdone
  | f :: fs, hfields, position, done, hdone => by
    obtain ⟨hf, hfs⟩ := List.forall_mem_cons.mp hfields
    rw [fromItems]
    refine .after fun more => ?_
    cases more with
    | true => exact (hf depth).bind fun update hupdate =>
        fromItems_yields hfs (position + 1) (hupdate _ hdone)
    | false =>
      rw [if_neg Bool.false_ne_true]
      split
      · exact .fail _
      · exact .after fun _ => .pure hdone

/-- A record that is read has every property that its defaults have and its fields keep. -/
theorem read_yields (hinitial : P r.initial) (hfields : ∀ f ∈ r.fields, f.Keeps P) (depth : Nat) :
    Yields P (r.read depth) := by
  rw [read]
  refine .after fun s => ?_
  cases s with
  | brace =>
    refine .after fun depth => ?_
    intro cs
    exact fromMembers_yields hfields true [] (cs.length + 1) hinitial cs
  | bracket => exact .after fun depth => fromItems_yields hfields 0 hinitial
  | _ => exact .mismatch _ _

end Record
end Json
end GameScript
