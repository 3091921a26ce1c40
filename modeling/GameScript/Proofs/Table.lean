import GameScript.Table
import Mathlib.Data.List.Nodup
import Mathlib.Logic.Function.Basic

/-! Keys and entries of tables. Writing never repeats a key, and every entry of a table that was written
is the one that was written or an earlier one. -/

namespace GameScript
namespace Table

variable {κ ν : Type} [DecidableEq κ] {t : Table κ ν} {k : κ} {v : ν}

theorem mem_of_get? (h : get? t k = some v) : (k, v) ∈ t := by
  induction t with
  | nil => cases h
  | cons e t ih =>
    obtain ⟨k', v'⟩ := e
    rw [get?] at h
    split_ifs at h with hk
    · rw [← hk, ← Option.some.inj h]
      exact List.mem_cons_self
    · exact List.mem_cons_of_mem _ (ih h)

theorem get?_eq_none_iff : get? t k = none ↔ k ∉ keys t := by
  induction t with
  | nil => simp [get?, keys]
  | cons e t ih =>
    obtain ⟨k', v'⟩ := e
    by_cases hk : k' = k
    · simp [get?, keys, hk]
    · rw [get?, if_neg hk, ih, keys, keys, List.map_cons, List.mem_cons, not_or]
      exact ⟨fun h => ⟨fun h' => hk h'.symm, h⟩, And.right⟩

theorem mem_keys_of_get? (h : get? t k = some v) : k ∈ keys t := by
  by_contra hk
  rw [get?_eq_none_iff.mpr hk] at h
  cases h

theorem get?_put (t : Table κ ν) (key : κ) (value : ν) (other : κ) :
    get? (put t key value) other = if key = other then some value else get? t other := by
  split_ifs with h
  · rw [h, get?_put_self]
  · exact get?_put_of_ne t value h

theorem put_of_get? (h : get? t k = some v) : put t k v = t := by
  induction t with
  | nil => cases h
  | cons e t ih =>
    obtain ⟨k', v'⟩ := e
    rw [get?] at h
    rw [put]
    split_ifs at h ⊢ with hk
    · rw [Option.some.inj h]
    · rw [ih h]

theorem put_of_not_mem (h : k ∉ keys t) (v : ν) : put t k v = t ++ [(k, v)] := by
  induction t with
  | nil => rfl
  | cons e t ih =>
    obtain ⟨k', v'⟩ := e
    rw [keys, List.map_cons, List.mem_cons, not_or] at h
    rw [put, if_neg fun hk => h.1 hk.symm, ih h.2, List.cons_append]

theorem put_put (t : Table κ ν) (k : κ) (v w : ν) : put (put t k v) k w = put t k w := by
  induction t with
  | nil => simp [put]
  | cons e t ih =>
    obtain ⟨k', v'⟩ := e
    by_cases hk : k' = k
    · simp [put, hk]
    · simp [put, hk, ih]

/-- Writing at a key that is present can be done before writing at another one. -/
theorem put_comm (h : k ∈ keys t) {k' : κ} (hne : k ≠ k') (v v' : ν) :
    put (put t k' v') k v = put (put t k v) k' v' := by
  induction t with
  | nil => cases h
  | cons e t ih =>
    obtain ⟨j, u⟩ := e
    by_cases hj : j = k
    · subst hj
      simp [put, hne]
    · have h : k ∈ keys t := (List.mem_cons.mp h).resolve_left fun heq => hj heq.symm
      by_cases hj' : j = k'
      · simp [put, hj', hne.symm]
      · simp [put, hj, hj', ih h]

theorem mem_keys_put {j : κ} : j ∈ keys (put t k v) ↔ j = k ∨ j ∈ keys t := by
  rw [keys_put]
  split_ifs with hk
  · exact ⟨.inr, fun h => h.elim (fun heq => heq ▸ hk) id⟩
  · rw [List.mem_append, List.mem_singleton, or_comm]

/-- A table whose keys go on where those of another one end is that table if it holds the same values. -/
theorem eq_of_get?_eq {t' : Table κ ν} (hkeys : keys t <+: keys t') (hnodup : (keys t').Nodup)
    (h : ∀ k, get? t' k = get? t k) : t' = t := by
  induction t generalizing t' with
  | nil =>
    cases t' with
    | nil => rfl
    | cons e t' => simpa [get?] using h e.1
  | cons e t ih =>
    obtain ⟨k, v⟩ := e
    cases t' with
    | nil => simp [keys] at hkeys
    | cons e' t' =>
      obtain ⟨k', v'⟩ := e'
      obtain ⟨rfl, hrest⟩ : k = k' ∧ keys t <+: keys t' := List.cons_prefix_cons.mp hkeys
      obtain ⟨fresh, hnodup⟩ := List.nodup_cons.mp hnodup
      have hv : v' = v := by simpa [get?] using h k
      refine congrArg₂ List.cons (by rw [hv]) (ih hrest hnodup fun j => ?_)
      by_cases hj : k = j
      · subst hj
        rw [get?_eq_none_iff.mpr fresh, get?_eq_none_iff.mpr fun hk => fresh (hrest.subset hk)]
      · simpa [get?, hj] using h j

theorem length_put (h : k ∈ keys t) (value : ν) : (put t k value).length = t.length := by
  have hkeys : keys (put t k value) = keys t := by rw [keys_put, if_pos h]
  simpa [keys] using congrArg List.length hkeys

theorem mem_of_mem_put {key : κ} {value : ν} (h : (k, v) ∈ put t key value) :
    (k = key ∧ v = value) ∨ (k, v) ∈ t := by
  induction t with
  | nil =>
    rw [put, List.mem_singleton] at h
    cases h
    exact .inl ⟨rfl, rfl⟩
  | cons e t ih =>
    obtain ⟨k', v'⟩ := e
    rw [put] at h
    split_ifs at h with hk
    · rcases List.mem_cons.mp h with h | h
      · cases h
        exact .inl ⟨hk, rfl⟩
      · exact .inr (List.mem_cons_of_mem _ h)
    · rcases List.mem_cons.mp h with h | h
      · exact .inr (h ▸ List.mem_cons_self)
      · exact (ih h).imp_right (List.mem_cons_of_mem _)

theorem nodup_keys_put (h : (keys t).Nodup) (key : κ) (value : ν) :
    (keys (put t key value)).Nodup := by
  rw [keys_put]
  split_ifs with hk
  · exact h
  · exact List.nodup_append'.mpr ⟨h, List.nodup_singleton key, by simpa using hk⟩

theorem nodup_keys_foldl_put (entries : List (κ × ν)) (h : (keys t).Nodup) :
    (keys (entries.foldl (fun t e => put t e.1 e.2) t)).Nodup := by
  induction entries generalizing t with
  | nil => exact h
  | cons e entries ih => exact ih (nodup_keys_put h e.1 e.2)

theorem nodup_keys_ofEntries (entries : List (κ × ν)) : (keys (ofEntries entries)).Nodup :=
  nodup_keys_foldl_put entries List.nodup_nil

theorem get?_map {μ : Type} (f : κ → ν → μ) (t : Table κ ν) (k : κ) :
    get? (t.map fun e => (e.1, f e.1 e.2)) k = (get? t k).map (f k) := by
  induction t with
  | nil => rfl
  | cons e t ih =>
    obtain ⟨k', v'⟩ := e
    rw [List.map_cons, get?, get?, ih]
    split_ifs with hk
    · rw [hk]
      rfl
    · rfl

theorem get?_of_mem (h : (keys t).Nodup) (hmem : (k, v) ∈ t) : get? t k = some v := by
  cases hk : get? t k with
  | none => exact absurd (List.mem_map.mpr ⟨_, hmem, rfl⟩) (get?_eq_none_iff.mp hk)
  | some v' =>
    have := List.inj_on_of_nodup_map h hmem (mem_of_get? hk) rfl
    rw [(Prod.mk.inj this).2]

theorem get?_mapKeys (f : κ → ν) (l : List κ) (k : κ) :
    get? (l.map fun k => (k, f k)) k = if k ∈ l then some (f k) else none := by
  induction l with
  | nil => rfl
  | cons k' l ih =>
    rw [List.map_cons, get?, ih]
    by_cases hk : k' = k
    · simp [hk]
    · simp [hk, Ne.symm hk]

/-- Entries written to a function one after the other, each key once: it has the value of the entry where there is
one, and is as it was elsewhere. -/
theorem foldl_update_apply {α : Type} (f : ν → α) : (ws : List (κ × ν)) → (keys ws).Nodup → (h : κ → α) →
    (k : κ) → ws.foldl (fun h' w => Function.update h' w.1 (f w.2)) h k = match get? ws k with
      | some v => f v
      | none => h k
  | [], _, _, _ => rfl
  | (k', v) :: ws, distinct, h, k => by
    obtain ⟨fresh, distinct⟩ := List.nodup_cons.mp distinct
    rw [List.foldl_cons, foldl_update_apply f ws distinct, get?]
    by_cases hk : k' = k
    · rw [if_pos hk, get?_eq_none_iff.mpr (hk ▸ fresh), hk, Function.update_self]
    · rw [if_neg hk, Function.update_of_ne (Ne.symm hk)]

end Table
end GameScript
