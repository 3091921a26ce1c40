import GameScript.Proofs.Ledger
import GameScript.Proofs.Promotion.Storage

/-! Which variables become locals. The eligible variables, those whose spelled names are identifiers, are ranked
by their number of uses, and equally used ones by when they were first seen. The locals are the best of them, as
many as there is room for, and the table holds all other variables in the order in which they were seen. -/

namespace GameScript
namespace Promotion

open Lua

variable {usage : Table String Nat}

/-- How often a variable is used. -/
def usesOf (usage : Table String Nat) (v : String) : Nat := (Table.get? usage v).getD 0

/-- The first variable is used more often than the second one, or as often and was seen before it. -/
def Outranks (usage : Table String Nat) (v w : String) : Prop :=
  usesOf usage w < usesOf usage v ∨ usesOf usage w = usesOf usage v ∧
    (Table.keys usage).idxOf v < (Table.keys usage).idxOf w

/-- The variables that may be locals, in the order in which they were seen. -/
def eligible (usage : Table String Nat) : List String :=
  (Table.keys usage).filter fun v => isIdentifier (escapeReserved v)

/-- The variables in the order in which they are considered. -/
def ranking (usage : Table String Nat) : List String :=
  (usage.mergeSort fun a b => b.2 ≤ a.2).map Prod.fst

/-- The variables whose names are those of the locals. -/
def chosen (usage : Table String Nat) : List String :=
  ((ranking usage).filter fun v => isIdentifier (escapeReserved v)).take greatestLocals

/-! ### The ranking -/

theorem ranking_perm (usage : Table String Nat) : (ranking usage).Perm (Table.keys usage) :=
  (List.mergeSort_perm usage _).map Prod.fst

/-- What is known of an entry by its position in the table. -/
theorem position_of_mem_zipIdx (h : (Table.keys usage).Nodup) {e : (String × Nat) × Nat}
    (he : e ∈ usage.zipIdx) :
    usesOf usage e.1.1 = e.1.2 ∧ (Table.keys usage).idxOf e.1.1 = e.2 := by
  obtain ⟨⟨v, n⟩, i⟩ := e
  have hi : usage[i]? = some (v, n) := List.mem_zipIdx_iff_getElem?.mp he
  constructor
  · rw [usesOf, Table.get?_of_mem h (List.mem_of_getElem? hi)]
    rfl
  · obtain ⟨hlt, hget⟩ := List.getElem?_eq_some_iff.mp hi
    have bound : i < (Table.keys usage).length := by simpa [Table.keys] using hlt
    have hkey : (Table.keys usage)[i] = v := by simp [Table.keys, hget]
    rw [← hkey]
    exact h.idxOf_getElem i bound

/-- Sorting is stable, so it sorts by the number of uses and then by the position. -/
theorem ranking_pairwise (h : (Table.keys usage).Nodup) :
    (ranking usage).Pairwise (Outranks usage) := by
  let more : String × Nat → String × Nat → Bool := fun a b => b.2 ≤ a.2
  have trans : ∀ a b c, more a b = true → more b c = true → more a c = true := by
    simp only [more, decide_eq_true_eq]
    omega
  have total : ∀ a b, (more a b || more b a) = true := by
    simp only [more, Bool.or_eq_true, decide_eq_true_eq]
    omega
  let placed := usage.zipIdx.mergeSort (List.zipIdxLE more)
  have perm : placed.Perm usage.zipIdx := List.mergeSort_perm _ _
  have sorted : placed.Pairwise fun a b => List.zipIdxLE more a b = true :=
    List.pairwise_mergeSort (List.zipIdxLE_trans trans) (List.zipIdxLE_total total) _
  have apart : placed.Pairwise fun a b => a.2 ≠ b.2 := by
    have positions : (placed.map Prod.snd).Nodup := by
      rw [(perm.map Prod.snd).nodup_iff, List.zipIdx_map_snd]
      exact List.nodup_range'
    exact List.pairwise_map.mp positions
  rw [ranking, ← List.mergeSort_zipIdx, List.map_map, List.pairwise_map]
  refine (sorted.and apart).imp_of_mem fun {a b} ha hb ⟨hle, hne⟩ => ?_
  obtain ⟨ha, ha'⟩ := position_of_mem_zipIdx h (perm.mem_iff.mp ha)
  obtain ⟨hb, hb'⟩ := position_of_mem_zipIdx h (perm.mem_iff.mp hb)
  simp only [Outranks, Function.comp_apply, ha, hb, ha', hb']
  simp only [List.zipIdxLE, more, decide_eq_true_eq] at hle
  split_ifs at hle with hmore hless
  · rw [decide_eq_true_eq] at hle
    exact .inr ⟨by omega, by omega⟩
  · exact .inl (by omega)

/-! ### The locals and the others -/

/-- Variables that are the best ones of those that are eligible, best first. -/
structure Best (usage : Table String Nat) (best : List String) : Prop where
  /-- There are as many as there is room for. -/
  length : best.length = min 160 (eligible usage).length
  eligible : best ⊆ eligible usage
  ordered : best.Pairwise (Outranks usage)
  outranks : ∀ v ∈ best, ∀ w ∈ Promotion.eligible usage, w ∉ best → Outranks usage v w

theorem chosen_best (h : (Table.keys usage).Nodup) : Best usage (chosen usage) := by
  let able := (ranking usage).filter fun v => isIdentifier (escapeReserved v)
  have perm : able.Perm (eligible usage) := (ranking_perm usage).filter _
  have ordered : able.Pairwise (Outranks usage) := (ranking_pairwise h).filter _
  -- the chosen variables stand before all others that are eligible
  have split : able.take greatestLocals ++ able.drop greatestLocals = able :=
    List.take_append_drop ..
  refine ⟨?_, ?_, ordered.sublist (List.take_sublist _ _), fun v hv w hw hout => ?_⟩
  · rw [chosen, List.length_take, perm.length_eq]
    rfl
  · exact fun v hv => perm.mem_iff.mp (List.mem_of_mem_take hv)
  · rw [← split] at ordered
    refine (List.pairwise_append.mp ordered).2.2 v hv w ?_
    have hw : w ∈ able := perm.mem_iff.mpr hw
    rw [← split] at hw
    exact (List.mem_append.mp hw).resolve_left hout

theorem locals_eq_map_chosen (usage : Table String Nat) :
    (ofUsage usage).locals = (chosen usage).map escapeReserved := by
  have spelled : ranked usage = (ranking usage).map escapeReserved := by
    rw [ranked, ranking, List.map_map]
    rfl
  rw [chosen, List.map_take]
  exact congrArg (List.take greatestLocals) (by rw [spelled, List.filter_map]; rfl)

theorem table_eq_map_others (usage : Table String Nat) : (ofUsage usage).table =
    ((Table.keys usage).filter fun v => v ∉ chosen usage).map escapeReserved := by
  have left : ∀ v, (!(ofUsage usage).locals.contains (escapeReserved v)) =
      decide (v ∉ chosen usage) := by
    intro v
    rw [locals_eq_map_chosen, List.contains_eq_mem, ← decide_not, decide_eq_decide,
      List.mem_map_of_injective fun _ _ => escapeReserved_injective]
  calc (ofUsage usage).table
      = ((Table.keys usage).map escapeReserved).filter fun x =>
          !(ofUsage usage).locals.contains x := by
        rw [Table.keys, List.map_map]
        rfl
    _ = ((Table.keys usage).filter fun v =>
          !(ofUsage usage).locals.contains (escapeReserved v)).map escapeReserved :=
        List.filter_map
    _ = _ := by simp only [left]

/-- The locals are the best of the eligible variables under their spelled names, best first, and the table holds
all others in the order in which they were seen. Each variable is in one of the two, and in one only. A ledger
never holds a variable twice. -/
theorem locals_best :
    (∀ log, (Table.keys (Ledger.empty.recordAll log).usage).Nodup) ∧
    ∀ usage : Table String Nat, (Table.keys usage).Nodup →
      let p := ofUsage usage
      (∃ best, Best usage best ∧ p.locals = best.map escapeReserved ∧
        p.table = ((Table.keys usage).filter fun v => v ∉ best).map escapeReserved) ∧
      p.locals.Nodup ∧ (∀ x ∈ p.locals, isIdentifier x = true) ∧ p.locals.Disjoint p.table ∧
      (p.locals ++ p.table).Perm ((Table.keys usage).map escapeReserved) := by
  refine ⟨fun log => Ledger.nodup_usage_recordAll log List.nodup_nil, fun usage h => ?_⟩
  refine ⟨⟨chosen usage, chosen_best h, locals_eq_map_chosen usage, table_eq_map_others usage⟩,
    nodup_locals h, fun x => isIdentifier_of_mem_locals, ?_, locals_append_table_perm h⟩
  exact fun x hlocal htable => (mem_table.mp htable).2 hlocal

/-- Two variables that are used as often, one with the compiler's prefix, and two that are no identifiers. -/
theorem locals_best_mixed :
    let usage : Table String Nat :=
      [("my var", 3), ("__hidden", 1), ("score", 2), ("then", 5), ("lives", 2)]
    let p := ofUsage usage
    (Table.keys usage).Nodup ∧ p = ⟨["score", "lives", "____hidden"], ["my var", "then"]⟩ ∧
      (∃ best, Best usage best ∧ p.locals = best.map escapeReserved ∧
        p.table = ((Table.keys usage).filter fun v => v ∉ best).map escapeReserved) ∧
      p.locals.Nodup ∧ (∀ x ∈ p.locals, isIdentifier x = true) ∧ p.locals.Disjoint p.table ∧
      (p.locals ++ p.table).Perm ((Table.keys usage).map escapeReserved) := by
  intro usage p
  have distinct : (Table.keys usage).Nodup := by decide
  refine ⟨distinct, ?_, locals_best.2 usage distinct⟩
  simp only [p, usage]
  cbv

end Promotion
end GameScript
