import GameScript.Proofs.Registry

/-! The names of scripts. A script whose base name is taken tries its qualified name, and then this name with the
numbers from two on, until one is free. There are finitely many names that are taken, so this ends whatever they
are, and it ends in the name that the registry gives. Hence every script of a game has a name of its own, and its
events are never replaced by those of another script. -/

namespace GameScript

/-- The keys of the first scripts are all keys, each once, in order of first appearance. -/
theorem map_key_firstScripts : (seen : List ScriptKey) → (xs : List Script) →
    (firstScripts seen xs).map Script.key =
      ((xs.map Script.key).filter fun key => key ∉ seen).eraseDups
  | _, [] => rfl
  | seen, x :: xs => by
    rw [firstScripts, List.map_cons]
    split_ifs with hx
    · rw [List.filter_cons_of_neg (by simpa using hx), map_key_firstScripts seen xs]
    · have rest : (fun key => decide (key ∉ x.key :: seen)) =
          fun key => !key == x.key && decide (key ∉ seen) := by
        funext key
        simp [not_or, Bool.beq_eq_decide_eq]
      rw [List.filter_cons_of_pos (by simpa using hx), List.eraseDups_cons, List.filter_filter,
        List.map_cons, map_key_firstScripts (x.key :: seen) xs, rest]

/-- The first script with a key is one of the first scripts. -/
theorem mem_firstScripts_of_find? {x : Script} {xs : List Script}
    (h : xs.find? (fun y => y.key = x.key) = some x) : x ∈ firstScripts [] xs := by
  obtain ⟨y, hy, hkey⟩ := exists_mem_firstScripts (List.mem_of_find?_eq_some h) List.not_mem_nil
  have hfind := find?_of_mem_firstScripts hy
  rw [hkey, h] at hfind
  rwa [Option.some.inj hfind]

namespace Registry

/-! ### The search for a free name -/

section

variable (taken : List String)

/-- Names tried one after the other, from a name and the number of the name after it, up to the first one that
is free. -/
inductive Tries (second : String) : String → Nat → String → Prop where
  | free {name : String} {n : Nat} : name ∉ taken → Tries second name n name
  | next {name result : String} {n : Nat} : name ∈ taken →
      Tries second s!"{second}_{n}" (n + 1) result → Tries second name n result

/-- The name that a script takes: its base name if that is free, and otherwise the first free one of the names
that are tried from the qualified one on. -/
inductive Takes (key : ScriptKey) (base : String) : String → Prop where
  | base : base ∉ taken → Takes key base base
  | other {name : String} : base ∈ taken →
      Tries taken (qualified key base) (qualified key base) 2 name → Takes key base name

end

variable {taken : List String} {key : ScriptKey} {base second name result result' : String} {n : Nat}

theorem Tries.unique (h : Tries taken second name n result) (h' : Tries taken second name n result') :
    result = result' := by
  induction h with
  | free hfree =>
    cases h' with
    | free => rfl
    | next htaken => exact absurd htaken hfree
  | next htaken _ ih =>
    cases h' with
    | free hfree => exact absurd htaken hfree
    | next _ h' => exact ih h'

theorem Takes.unique (h : Takes taken key base result) (h' : Takes taken key base result') :
    result = result' := by
  cases h with
  | base hfree =>
    cases h' with
    | base => rfl
    | other htaken => exact absurd htaken hfree
  | other htaken h =>
    cases h' with
    | base hfree => exact absurd htaken hfree
    | other _ h' => exact h.unique h'

/-- A free name found among the next names in order is the one that trying them ends in. -/
theorem tries_of_find? {k : Nat} (h : (name :: (List.range k).map fun i => s!"{second}_{i + n}").find?
    (fun name => !taken.contains name) = some result) : Tries taken second name n result := by
  induction k generalizing name n with
  | zero =>
    have hfree := List.find?_some h
    obtain rfl : result = name := by simpa using List.mem_of_find?_eq_some h
    exact .free (by simpa using hfree)
  | succ k ih =>
    by_cases htaken : name ∈ taken
    · refine .next htaken (ih ?_)
      rw [List.find?_cons_of_neg (by simpa using htaken), List.range_succ_eq_map, List.map_cons,
        List.map_map] at h
      rw [← h, Nat.zero_add]
      congr 3
      funext i
      rw [Function.comp_apply, Nat.succ_add_eq_add_succ]
    · rw [List.find?_cons_of_pos (by simpa using htaken)] at h
      obtain rfl := Option.some.inj h
      exact .free htaken

theorem freeName_of_not_mem (h : base ∉ taken) : freeName taken key base = base := by
  rw [freeName, proposals, List.find?_cons_of_pos (by simpa using h)]
  rfl

/-- However many names are taken, the search ends, in the name that the registry gives. -/
theorem takes_freeName (taken : List String) (key : ScriptKey) (base : String) :
    Takes taken key base (freeName taken key base) := by
  by_cases hbase : base ∈ taken
  · obtain ⟨free, hmem, hfree⟩ := exists_free taken key base
    cases h : (proposals taken key base).find? fun name => !taken.contains name with
    | none =>
      have := List.find?_eq_none.mp h free hmem
      simp [hfree] at this
    | some result =>
      rw [freeName, h]
      rw [proposals, List.find?_cons_of_neg (by simpa using hbase)] at h
      exact .other hbase (tries_of_find? h)
  · rw [freeName_of_not_mem hbase]
    exact .base hbase

/-- A script whose base name is taken gets its qualified name, with a number or without one. -/
theorem freeName_of_mem (h : base ∈ taken) : freeName taken key base = qualified key base ∨
    ∃ i : Nat, freeName taken key base = s!"{qualified key base}_{i + 2}" := by
  have free := freeName_not_mem taken key base
  have named := freeName_namedAfter taken key base
  generalize freeName taken key base = name at free named
  cases named with
  | base => exact absurd h free
  | qualified => exact .inl rfl
  | numbered i => exact .inr ⟨i, rfl⟩

/-! ### The names of a game -/

variable {g : Game} {x : Script}

theorem eq_freeName_of_naming : {taken : List String} → {xs : List Script} →
    {before after : List (Script × String)} → naming g taken xs = before ++ (x, name) :: after →
      name = freeName (taken ++ before.map Prod.snd) x.key (g.baseName x.key)
  | _, [], _, _, h => by simp [naming] at h
  | taken, y :: ys, before, after, h => by
    rw [naming] at h
    cases before with
    | nil =>
      obtain ⟨first, -⟩ := List.cons.inj h
      cases first
      simp
    | cons p before =>
      obtain ⟨first, rest⟩ := List.cons.inj h
      rw [eq_freeName_of_naming rest, ← first, List.map_cons, List.append_assoc]
      rfl

theorem keys_names (g : Game) :
    Table.keys (ofNamed g.named).names = (g.scripts.map Script.key).eraseDups := by
  have first := map_key_firstScripts [] g.scripts
  simp only [List.not_mem_nil, not_false_eq_true, decide_true, List.filter_true] at first
  rw [← first, ← Game.map_fst_named, ofNamed, Table.keys, List.map_map, List.map_map]
  rfl

/-- The names that a registry gives, each with the names that were taken before. -/
theorem eq_freeName_of_names {before after : Table ScriptKey String}
    (h : (ofNamed g.named).names = before ++ (key, name) :: after) :
    name = freeName (before.map Prod.snd) key (g.baseName key) := by
  obtain ⟨named, rest, hsplit, rfl, hrest⟩ := List.map_eq_append_iff.mp h
  obtain ⟨⟨x, name'⟩, after', rfl, hx, -⟩ := List.map_eq_cons_iff.mp hrest
  cases hx
  rw [eq_freeName_of_naming hsplit, List.nil_append, List.map_map]
  rfl

/-- Every search for a name ends, in one name. A game always has a registry, which gives one name to each key, in
order of first appearance, and no name twice. A key takes the base name of its script unless an earlier script
took it, and else its qualified name, with a number or without one. Under each name stand the events of the first
script of its key. -/
theorem names_unique :
    (∀ taken key base, ∃! name, Takes taken key base name) ∧
    ∀ g : Game, ∃ r, (build g).result = .ok r ∧
      Table.keys r.names = (g.scripts.map Script.key).eraseDups ∧
      (Table.keys r.names).Nodup ∧ (r.names.map Prod.snd).Nodup ∧
      (∀ before key name after, r.names = before ++ (key, name) :: after →
        let taken := before.map Prod.snd
        let base := g.baseName key
        Takes taken key base name ∧ (base ∉ taken → name = base) ∧
          (base ∈ taken → name = qualified key base ∨
            ∃ i : Nat, name = s!"{qualified key base}_{i + 2}")) ∧
      Table.keys r.events = r.names.map Prod.snd ∧
      ∀ x, g.scripts.find? (fun y => y.key = x.key) = some x → ∃ name,
        r.nameOf? x.key = some name ∧
          Table.get? r.events name = some (distinct (x.events.map Prod.fst)) := by
  refine ⟨fun taken key base => ⟨_, takes_freeName taken key base, fun name h =>
    h.unique (takes_freeName taken key base)⟩, fun g => ?_⟩
  have names : (ofNamed g.named).names.map Prod.snd = g.named.map Prod.snd := by
    rw [ofNamed, List.map_map]
    rfl
  refine ⟨_, build_result g, keys_names g, nodup_keys_names g, names ▸ nodup_naming _ _,
    fun before key name after h => ?_, keys_events_ofNamed.trans names.symm,
    fun x hx => (build_spec (build_result g)).2 x (mem_firstScripts_of_find? hx)⟩
  obtain rfl := eq_freeName_of_names h
  exact ⟨takes_freeName _ _ _, freeName_of_not_mem, freeName_of_mem⟩

/-- A tile that is named as another one is once its own name is taken. -/
theorem names_unique_crafted :
    let tile (name : String) : Tile := ⟨0, name, none, 0, 0, false, []⟩
    let x : Script := ⟨.tile, 2, [("enter", 0)], [[]]⟩
    let g : Game := { (default : Game) with
      tiles := [tile "x", tile "tile_2_x", tile "x"]
      scripts := [⟨.tile, 0, [("load", 0)], [[]]⟩, ⟨.tile, 1, [], []⟩, x] }
    ∃ r, (build g).result = .ok r ∧
      r.names = [((.tile, 0), "x"), ((.tile, 1), "tile_2_x")] ++ [((.tile, 2), "tile_2_x_2")] ∧
      (r.names.map Prod.snd).Nodup ∧ Takes ["x", "tile_2_x"] (.tile, 2) "x" "tile_2_x_2" ∧
      g.scripts.find? (fun y => y.key = x.key) = some x ∧
      ∃ name, r.nameOf? (.tile, 2) = some name ∧ Table.get? r.events name = some ["enter"] := by
  intro tile x g
  obtain ⟨r, hr, -, -, hnodup, hnames, -, hevents⟩ := names_unique.2 g
  have names : (build g).result.toOption.map Registry.names =
      some ([((.tile, 0), "x"), ((.tile, 1), "tile_2_x")] ++ [((.tile, 2), "tile_2_x_2")]) := by
    decide +kernel
  rw [hr] at names
  have names := Option.some.inj names
  exact ⟨r, hr, names, hnodup, (hnames _ _ _ _ names).1, rfl, hevents x rfl⟩

end Registry
end GameScript
