import GameScript.Proofs.Mimic.Folding

/-! Stopping early. Folding keeps two records of what it does, the slots themselves and the list of what was
written, and only the list is looked at to see that a round changed nothing. This is enough, because the list
tells the slots: they are the slots of the scripts with the list carried out over them, in its order. So a round
that leaves the list as it was leaves everything as it was, and all later rounds do too. -/

namespace GameScript
namespace Mimic

/-- The rows of slots with one more handler in its slot. -/
def write (rows : Table String (Table String Binding)) (a : Slot × Binding) :
    Table String (Table String Binding) :=
  Table.put rows a.1.1 (Table.put ((Table.get? rows a.1.1).getD []) a.1.2 a.2)

/-- The rows of slots with handlers written into them in order. -/
def writeAll (rows : Table String (Table String Binding)) (written : Table Slot Binding) :
    Table String (Table String Binding) := written.foldl write rows

/-- The rows hold a slot. -/
def Holds (rows : Table String (Table String Binding)) (k : Slot) : Prop :=
  k.2 ∈ Table.keys ((Table.get? rows k.1).getD [])

variable {rows : Table String (Table String Binding)} {k k' : Slot} {b b' : Binding}

/-! ### Writing -/

theorem holds_write : Holds (write rows (k, b)) k' ↔ k' = k ∨ Holds rows k' := by
  rw [Holds, write, Table.get?_put]
  split_ifs with h
  · rw [Option.getD_some, Table.mem_keys_put, h]
    exact or_congr_left ⟨fun heq => Prod.ext h.symm heq, congrArg Prod.snd⟩
  · exact (or_iff_right fun heq => h (congrArg Prod.fst heq.symm)).symm

theorem write_write (rows : Table String (Table String Binding)) (k : Slot) (b b' : Binding) :
    write (write rows (k, b)) (k, b') = write rows (k, b') := by
  simp only [write, Table.get?_put_self, Option.getD_some, Table.put_put]

/-- A slot that the rows hold can be written before another one. -/
theorem write_comm (h : Holds rows k) (hne : k ≠ k') :
    write (write rows (k', b')) (k, b) = write (write rows (k, b)) (k', b') := by
  obtain ⟨x, y⟩ := k
  obtain ⟨x', y'⟩ := k'
  simp only [write]
  by_cases hx : x = x'
  · subst hx
    have hy : y ≠ y' := fun hy => hne (by rw [hy])
    simp only [Table.get?_put_self, Option.getD_some, Table.put_put]
    rw [Table.put_comm h hy]
  · have present : x ∈ Table.keys rows := by
      by_contra habsent
      rw [Holds, Table.get?_eq_none_iff.mpr habsent] at h
      cases h
    rw [Table.get?_put_of_ne _ _ (Ne.symm hx), Table.get?_put_of_ne _ _ hx,
      Table.put_comm present hx]

/-- A slot that the rows hold can be written before all others. -/
theorem write_writeAll : (written : Table Slot Binding) → {rows : Table String (Table String Binding)} →
    Holds rows k → k ∉ Table.keys written →
      write (writeAll rows written) (k, b) = writeAll (write rows (k, b)) written
  | [], _, _, _ => rfl
  | (k', b') :: written, rows, h, hk => by
    obtain ⟨hne, hk⟩ := not_or.mp (mt List.mem_cons.mpr hk)
    rw [writeAll, List.foldl_cons, ← writeAll, write_writeAll written (holds_write.mpr (.inr h)) hk,
      write_comm h hne]
    rfl

/-- Writing in place in the list, or at its end, comes to writing last. -/
theorem writeAll_put : (written : Table Slot Binding) → (Table.keys written).Nodup →
    (rows : Table String (Table String Binding)) → (k : Slot) → (b : Binding) →
      writeAll rows (Table.put written k b) = write (writeAll rows written) (k, b)
  | [], _, _, _, _ => rfl
  | (k', b') :: written, h, rows, k, b => by
    obtain ⟨fresh, h⟩ := List.nodup_cons.mp h
    rw [Table.put]
    split_ifs with hk
    · subst hk
      rw [writeAll, writeAll, List.foldl_cons, List.foldl_cons, ← writeAll, ← writeAll,
        write_writeAll written (holds_write.mpr (.inl rfl)) fresh, write_write]
    · exact writeAll_put written h (write rows (k', b')) k b

/-! ### What folding keeps -/

variable {r : Registry} {cs : List Candidate} {s : Slots}

theorem round_keeps_held {P : Slots → Prop} {Q : Binding → Prop}
    (held : ∀ s, P s → ∀ x, ∀ e ∈ s.row x, Q e.2) (set : ∀ s x y b, P s → Q b → P (s.set x y b)) (h : P s) :
    P (round r cs s) := by
  rw [round]
  induction cs generalizing s with
  | nil => exact h
  | cons c cs ih => exact ih (apply_keeps_held held set r c h)

theorem round_keeps {P : Slots → Prop} (set : ∀ s x y b, P s → P (s.set x y b)) (h : P s) :
    P (round r cs s) :=
  round_keeps_held (Q := fun _ => True) (fun _ _ _ _ _ => trivial) (fun s x y b h _ => set s x y b h) h

theorem Slots.eq_of_records {s t : Slots} (table : s.table = t.table)
    (written : s.written = t.written) : s = t := by
  obtain ⟨rows, list⟩ := s
  obtain ⟨rows', list'⟩ := t
  cases table
  cases written
  rfl

/-- The slots are those of the scripts with the list of what was written carried out over them. -/
structure Replayed (r : Registry) (s : Slots) : Prop where
  once : (Table.keys s.written).Nodup
  table : s.table = writeAll (Slots.initial r).table s.written

theorem Replayed.initial (r : Registry) : Replayed r (Slots.initial r) := ⟨List.nodup_nil, rfl⟩

theorem Replayed.set (s : Slots) (x y : String) (b : Binding) (h : Replayed r s) :
    Replayed r (s.set x y b) := by
  rw [Slots.set]
  split_ifs
  · exact h
  · refine ⟨Table.nodup_keys_put h.once _ _, ?_⟩
    rw [writeAll_put _ h.once, ← h.table]
    rfl

theorem Replayed.round (h : Replayed r s) : Replayed r (round r cs s) := round_keeps .set h

theorem Replayed.iterate (r : Registry) (cs : List Candidate) (n : Nat) :
    Replayed r ((Mimic.round r cs)^[n] (Slots.initial r)) := by
  induction n with
  | zero => exact .initial r
  | succ n ih =>
    rw [Function.iterate_succ_apply']
    exact ih.round

/-- A round that leaves the list as it was leaves the slots as they were. -/
theorem Replayed.round_eq_self (h : Replayed r s) (hw : (Mimic.round r cs s).written = s.written) :
    Mimic.round r cs s = s := by
  have table : (Mimic.round r cs s).table = s.table := by
    rw [h.round.table, hw, ← h.table]
  exact Slots.eq_of_records table hw

theorem Replayed.rounds_eq_iterate (h : Replayed r s) (n : Nat) :
    rounds r cs n s = (Mimic.round r cs)^[n] s := by
  induction n generalizing s with
  | zero => rfl
  | succ n ih =>
    rw [rounds, Function.iterate_succ_apply]
    split_ifs with hw
    · have fixed := h.round_eq_self hw
      rw [fixed, Function.iterate_fixed fixed]
    · exact ih h.round

/-- The list of what was written only grows, at its end. -/
theorem keys_written_prefix_round :
    Table.keys s.written <+: Table.keys (Mimic.round r cs s).written := by
  refine round_keeps (P := fun t => Table.keys s.written <+: Table.keys t.written)
    (fun t x y b h => ?_) (List.prefix_refl _)
  rw [Slots.set]
  split_ifs
  · exact h
  · rw [Table.keys_put]
    split_ifs
    · exact h
    · exact h.trans (List.prefix_append _ _)

/-- Folding up to the first round that leaves what was written as it was gives the text that all rounds give, and
such a round is one after which every slot that was written holds what it held, whatever the order. -/
theorem fold_eq_all_rounds (r : Registry) (cs : List Candidate) (n : Nat) :
    let s := (round r cs)^[n] (Slots.initial r)
    fold r cs n = text s.written ∧
      ((round r cs s).written = s.written ↔
        ∀ k, Table.get? (round r cs s).written k = Table.get? s.written k) := by
  intro s
  refine ⟨?_, fun h k => by rw [h], fun h => ?_⟩
  · rw [fold, (Replayed.initial r).rounds_eq_iterate]
  · exact Table.eq_of_get?_eq keys_written_prefix_round (Replayed.iterate r cs n).round.once h

end Mimic
end GameScript
