/-! Tables that remember the order in which their keys first arrived. A table is the list of its
entries; writing to a key that is present changes its value and keeps its place. -/

namespace GameScript

/-- The entries of a table, oldest key first. -/
abbrev Table (κ ν : Type) := List (κ × ν)

namespace Table

variable {κ ν : Type} [DecidableEq κ]

/-- The keys, oldest first. -/
def keys (t : Table κ ν) : List κ := t.map Prod.fst

def get? : Table κ ν → κ → Option ν
  | [], _ => none
  | (k, v) :: t, key => if k = key then some v else get? t key

/-- Writes a value at a key: in place when the key is present, at the end otherwise. -/
def put : Table κ ν → κ → ν → Table κ ν
  | [], key, value => [(key, value)]
  | (k, v) :: t, key, value => if k = key then (k, value) :: t else (k, v) :: put t key value

/-- The table of a list of entries: a repeated key keeps its first place and its last value. -/
def ofEntries (entries : List (κ × ν)) : Table κ ν :=
  entries.foldl (fun t e => put t e.1 e.2) []

theorem get?_put_self (t : Table κ ν) (key : κ) (value : ν) :
    get? (put t key value) key = some value := by
  induction t with
  | nil => simp [put, get?]
  | cons e t ih =>
    obtain ⟨k, v⟩ := e
    by_cases h : k = key <;> simp [put, get?, h, ih]

theorem get?_put_of_ne (t : Table κ ν) {key other : κ} (value : ν) (h : key ≠ other) :
    get? (put t key value) other = get? t other := by
  induction t with
  | nil => simp [put, get?, h]
  | cons e t ih =>
    obtain ⟨k, v⟩ := e
    by_cases hk : k = key
    · subst hk; simp [put, get?, h]
    · simp [put, get?, hk, ih]

theorem keys_put (t : Table κ ν) (key : κ) (value : ν) :
    keys (put t key value) = if key ∈ keys t then keys t else keys t ++ [key] := by
  induction t with
  | nil => simp [put, keys]
  | cons e t ih =>
    obtain ⟨k, v⟩ := e
    by_cases hk : k = key
    · subst hk; simp [put, keys]
    · have hk' : ¬ key = k := fun h => hk h.symm
      simp only [keys] at ih
      by_cases hm : key ∈ t.map Prod.fst <;> simp [put, keys, hk, hk', ih, hm]

end Table
end GameScript
