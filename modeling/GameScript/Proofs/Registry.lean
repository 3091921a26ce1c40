import GameScript.Registry
import GameScript.Proofs.Compile.Action
import GameScript.Proofs.Table
import Mathlib.Data.List.Perm.Subperm

/-! The registry of a game. It lists the scripts that are the first ones of their keys, in order, each with
a name of its own that comes from its base name, and its events under that name. -/

namespace GameScript

/-! ### Scripts that are the first ones of their key -/

theorem mem_of_mem_firstScripts {x : Script} : {seen : List ScriptKey} → {xs : List Script} →
    x ∈ firstScripts seen xs → x ∈ xs
  | _, [], h => h
  | seen, y :: ys, h => by
    rw [firstScripts] at h
    split at h
    · exact List.mem_cons_of_mem _ (mem_of_mem_firstScripts h)
    · rcases List.mem_cons.mp h with rfl | h
      · exact List.mem_cons_self
      · exact List.mem_cons_of_mem _ (mem_of_mem_firstScripts h)

theorem key_not_mem_of_mem_firstScripts {x : Script} : {seen : List ScriptKey} →
    {xs : List Script} → x ∈ firstScripts seen xs → x.key ∉ seen
  | _, [], h => nomatch h
  | seen, y :: ys, h => by
    rw [firstScripts] at h
    split at h
    · exact key_not_mem_of_mem_firstScripts h
    · rcases List.mem_cons.mp h with rfl | h
      · assumption
      · exact fun hmem => key_not_mem_of_mem_firstScripts h (List.mem_cons_of_mem _ hmem)

theorem nodup_keys_firstScripts : (seen : List ScriptKey) → (xs : List Script) →
    ((firstScripts seen xs).map Script.key).Nodup
  | _, [] => List.nodup_nil
  | seen, x :: xs => by
    rw [firstScripts]
    split
    · exact nodup_keys_firstScripts seen xs
    · refine List.nodup_cons.mpr ⟨fun h => ?_, nodup_keys_firstScripts _ xs⟩
      obtain ⟨y, hy, hkey⟩ := List.mem_map.mp h
      exact key_not_mem_of_mem_firstScripts hy (hkey ▸ List.mem_cons_self)

/-- Every script that no earlier key stands for has a first script of its key. -/
theorem exists_mem_firstScripts {x : Script} : {seen : List ScriptKey} → {xs : List Script} →
    x ∈ xs → x.key ∉ seen → ∃ y ∈ firstScripts seen xs, y.key = x.key
  | seen, z :: zs, hx, hseen => by
    rw [firstScripts]
    split
    · next hz =>
      rcases List.mem_cons.mp hx with rfl | hx
      · exact absurd hz hseen
      · exact exists_mem_firstScripts hx hseen
    · by_cases hkey : z.key = x.key
      · exact ⟨z, List.mem_cons_self, hkey⟩
      · have hx : x ∈ zs := (List.mem_cons.mp hx).resolve_left fun h => hkey (congrArg _ h.symm)
        have hseen : x.key ∉ z.key :: seen := by simp [hseen, Ne.symm hkey]
        obtain ⟨y, hy, h⟩ := exists_mem_firstScripts hx hseen
        exact ⟨y, List.mem_cons_of_mem _ hy, h⟩

/-- A first script is the first one with its key. -/
theorem find?_of_mem_firstScripts {x : Script} : {seen : List ScriptKey} → {xs : List Script} →
    x ∈ firstScripts seen xs → xs.find? (fun y => y.key = x.key) = some x
  | seen, y :: ys, h => by
    have hx := key_not_mem_of_mem_firstScripts h
    rw [firstScripts] at h
    split at h
    · next hy =>
      rw [List.find?_cons_of_neg, find?_of_mem_firstScripts h]
      exact fun hkey => hx (of_decide_eq_true hkey ▸ hy)
    · rcases List.mem_cons.mp h with rfl | h
      · exact List.find?_cons_of_pos (decide_eq_true rfl)
      · rw [List.find?_cons_of_neg, find?_of_mem_firstScripts h]
        exact fun hkey => key_not_mem_of_mem_firstScripts h (of_decide_eq_true hkey ▸ List.mem_cons_self)

/-- Among the first scripts, a key tells the script. -/
theorem eq_of_mem_firstScripts {seen : List ScriptKey} {xs : List Script} {x y : Script}
    (hx : x ∈ firstScripts seen xs) (hy : y ∈ firstScripts seen xs) (h : x.key = y.key) : x = y :=
  List.inj_on_of_nodup_map (nodup_keys_firstScripts seen xs) hx hy h

namespace Game

/-- The name of a script that the document gives none. -/
def placeholderName (key : ScriptKey) : String := s!"__UNKNOWN_SCRIPT_{key.1.code}_{key.2}"

/-- The name of a script before it is made unique. -/
def baseName (g : Game) (key : ScriptKey) : String := (g.givenName? key).getD (placeholderName key)

theorem scriptName_result (g : Game) (key : ScriptKey) :
    (g.scriptName key).result = .ok (g.baseName key) := by
  rw [scriptName, baseName]
  cases g.givenName? key <;> rfl

end Game

namespace Registry

/-! ### Free names -/

theorem digits_injective {i j : Nat} (h : toString i = toString j) : i = j := by
  have digits := congrArg (fun t => Nat.ofDigitChars 10 t.toList 0) h
  simpa [Nat.toString_eq_ofList_toDigits] using digits

theorem numbered_injective (base : String) {i j : Nat} (h : s!"{base}_{i}" = s!"{base}_{j}") :
    i = j := by
  have h := congrArg String.toList h
  simp only [String.toList_append] at h
  exact digits_injective (String.toList_injective (List.append_cancel_left h))

theorem ne_numbered (base : String) (i : Nat) : base ≠ s!"{base}_{i}" := by
  intro h
  have h := congrArg String.length h
  rw [String.length_append, String.length_append] at h
  have : (toString "_").length = 1 := rfl
  have : (toString base).length = base.length := rfl
  omega

/-- There are more different proposals than names that are taken. -/
theorem exists_free (taken : List String) (key : ScriptKey) (base : String) :
    ∃ name ∈ proposals taken key base, name ∉ taken := by
  by_contra h
  push Not at h
  have sub := (List.forall_mem_cons.mp h).2
  rw [← List.subset_def] at sub
  have distinct : (qualified key base :: (List.range taken.length).map fun i =>
      s!"{qualified key base}_{i + 2}").Nodup := by
    refine List.nodup_cons.mpr ⟨fun h => ?_, List.Nodup.map_on ?_ List.nodup_range⟩
    · obtain ⟨i, -, hi⟩ := List.mem_map.mp h
      exact ne_numbered _ _ hi.symm
    · intro i _ j _ hij
      have := numbered_injective _ hij
      omega
  have := (distinct.subperm sub).length_le
  rw [List.length_cons, List.length_map, List.length_range] at this
  omega

theorem freeName_not_mem (taken : List String) (key : ScriptKey) (base : String) :
    freeName taken key base ∉ taken := by
  obtain ⟨name, hname, hfree⟩ := exists_free taken key base
  rw [freeName]
  cases h : (proposals taken key base).find? fun name => !taken.contains name with
  | none =>
    have := List.find?_eq_none.mp h name hname
    simp [hfree] at this
  | some name => simpa using List.find?_some h

/-- A name that a script may get from a base name: the base name, the qualified one, or this with a
number. -/
inductive NamedAfter (key : ScriptKey) (base : String) : String → Prop where
  | base : NamedAfter key base base
  | qualified : NamedAfter key base (qualified key base)
  | numbered (i : Nat) : NamedAfter key base s!"{Registry.qualified key base}_{i + 2}"

theorem freeName_namedAfter (taken : List String) (key : ScriptKey) (base : String) :
    NamedAfter key base (freeName taken key base) := by
  rw [freeName]
  cases h : (proposals taken key base).find? fun name => !taken.contains name with
  | none => exact .base
  | some name =>
    have hname := List.mem_of_find?_eq_some h
    rw [proposals, List.mem_cons, List.mem_cons, List.mem_map] at hname
    rcases hname with rfl | rfl | ⟨i, -, rfl⟩
    · exact .base
    · exact .qualified
    · exact .numbered i

/-! ### Scripts with their names -/

/-- Scripts with the names that they get one after the other, given the names that are taken. -/
def naming (g : Game) (taken : List String) : List Script → List (Script × String)
  | [] => []
  | x :: xs =>
      let name := freeName taken x.key (g.baseName x.key)
      (x, name) :: naming g (taken ++ [name]) xs

variable {g : Game} {x : Script} {named : List (Script × String)}

theorem map_fst_naming : (taken : List String) → (xs : List Script) →
    (naming g taken xs).map Prod.fst = xs
  | _, [] => rfl
  | _, x :: xs => congrArg (x :: ·) (map_fst_naming _ xs)

theorem namedAfter_of_mem_naming {p : Script × String} : {taken : List String} →
    {xs : List Script} → p ∈ naming g taken xs → NamedAfter p.1.key (g.baseName p.1.key) p.2
  | _, x :: xs, h => by
    rcases List.mem_cons.mp h with rfl | h
    · exact freeName_namedAfter ..
    · exact namedAfter_of_mem_naming h

theorem not_mem_of_mem_naming {p : Script × String} : {taken : List String} →
    {xs : List Script} → p ∈ naming g taken xs → p.2 ∉ taken
  | taken, x :: xs, h => by
    rcases List.mem_cons.mp h with rfl | h
    · exact freeName_not_mem taken _ _
    · exact fun htaken => not_mem_of_mem_naming h (List.mem_append_left _ htaken)

/-- No name is given twice. -/
theorem nodup_naming : (taken : List String) → (xs : List Script) →
    ((naming g taken xs).map Prod.snd).Nodup
  | _, [] => List.nodup_nil
  | _, x :: xs => by
    refine List.nodup_cons.mpr ⟨fun h => ?_, nodup_naming _ xs⟩
    obtain ⟨p, hp, hname⟩ := List.mem_map.mp h
    exact not_mem_of_mem_naming hp (hname ▸ List.mem_append_right _ List.mem_cons_self)

/-- The registry that holds scripts under the names given to them. -/
def ofNamed (named : List (Script × String)) : Registry :=
  ⟨named.map fun p => (p.1.key, p.2), named.map fun p => (p.2, distinct (p.1.events.map Prod.fst))⟩

theorem keys_events_ofNamed : Table.keys (ofNamed named).events = named.map Prod.snd := by
  rw [ofNamed, Table.keys, List.map_map]
  rfl

theorem isSome_nameOf?_ofNamed {key : ScriptKey} :
    ((ofNamed named).nameOf? key).isSome ↔ key ∈ named.map fun p => p.1.key := by
  rw [← not_iff_not, Option.not_isSome_iff_eq_none, nameOf?, Table.get?_eq_none_iff, ofNamed,
    Table.keys, List.map_map]
  rfl

/-- A script is left out if its key has a name. -/
theorem add_of_mem (h : x.key ∈ named.map fun p => p.1.key) :
    (add g (ofNamed named) x).result = .ok (ofNamed named) := by
  rw [add, if_pos (isSome_nameOf?_ofNamed.mpr h)]
  rfl

/-- A script whose key has no name gets one that is free. -/
theorem add_of_not_mem (h : x.key ∉ named.map fun p => p.1.key) :
    (add g (ofNamed named) x).result = .ok (ofNamed
      (named ++ [(x, freeName (named.map Prod.snd) x.key (g.baseName x.key))])) := by
  rw [add, if_neg (mt isSome_nameOf?_ofNamed.mp h)]
  refine Outcome.result_bind_eq_ok_iff.mpr ⟨_, g.scriptName_result x.key, ?_⟩
  rw [keys_events_ofNamed]
  have free := freeName_not_mem (named.map Prod.snd) x.key (g.baseName x.key)
  generalize freeName (named.map Prod.snd) x.key (g.baseName x.key) = name at free
  have hnames : Table.put (ofNamed named).names x.key name =
      (ofNamed (named ++ [(x, name)])).names := by
    rw [Table.put_of_not_mem]
    · simp [ofNamed]
    · simpa [ofNamed, Table.keys] using h
  have hevents : Table.put (ofNamed named).events name (distinct (x.events.map Prod.fst)) =
      (ofNamed (named ++ [(x, name)])).events := by
    rw [Table.put_of_not_mem]
    · simp [ofNamed]
    · rwa [keys_events_ofNamed]
  rw [Outcome.pure_eq, hnames, hevents]

/-- Adding scripts one after the other goes on with the naming, where the keys that count as seen are those of
the scripts that have a name. -/
theorem addAll_result : (xs : List Script) → (named : List (Script × String)) →
    (seen : List ScriptKey) → (∀ key, key ∈ seen ↔ key ∈ named.map fun p => p.1.key) →
      (addAll g (ofNamed named) xs).result =
        .ok (ofNamed (named ++ naming g (named.map Prod.snd) (firstScripts seen xs)))
  | [], named, seen, _ => by
    rw [firstScripts, naming, List.append_nil]
    rfl
  | x :: xs, named, seen, hseen => by
    rw [firstScripts]
    split_ifs with hx
    · refine Outcome.result_bind_eq_ok_iff.mpr ⟨_, add_of_mem ((hseen _).mp hx), ?_⟩
      exact addAll_result xs named seen hseen
    · refine Outcome.result_bind_eq_ok_iff.mpr ⟨_, add_of_not_mem (mt (hseen _).mpr hx), ?_⟩
      rw [addAll_result xs _ (x.key :: seen) fun key => ?_]
      · simp [naming]
      · rw [List.map_append, List.mem_append, ← hseen, List.mem_cons, or_comm]
        simp

end Registry

namespace Game

/-- The first scripts of a game, in order, with their names. -/
def named (g : Game) : List (Script × String) := Registry.naming g [] (firstScripts [] g.scripts)

variable {g : Game} {x y : Script} {name : String}

theorem map_fst_named (g : Game) : g.named.map Prod.fst = firstScripts [] g.scripts :=
  Registry.map_fst_naming ..

theorem mem_firstScripts_of_mem_named (h : (x, name) ∈ g.named) : x ∈ firstScripts [] g.scripts := by
  rw [← map_fst_named]
  exact List.mem_map_of_mem h

/-- Every script of a game has a named script of its key. -/
theorem exists_mem_named (h : x ∈ g.scripts) : ∃ y name, (y, name) ∈ g.named ∧ y.key = x.key := by
  obtain ⟨y, hy, hkey⟩ := exists_mem_firstScripts h List.not_mem_nil
  rw [← map_fst_named] at hy
  obtain ⟨⟨y, name⟩, hmem, rfl⟩ := List.mem_map.mp hy
  exact ⟨y, name, hmem, hkey⟩

/-- Different scripts have different names. -/
theorem eq_of_mem_named (hx : (x, name) ∈ g.named) (hy : (y, name) ∈ g.named) : x = y :=
  congrArg Prod.fst (List.inj_on_of_nodup_map (Registry.nodup_naming _ _) hx hy rfl)

end Game

namespace Registry

/-! ### The registry of a game -/

variable {g : Game} {r : Registry} {x : Script} {key : ScriptKey} {name event : String}

theorem mem_distinct {t : String} {texts : List String} : t ∈ distinct texts ↔ t ∈ texts := by
  have mem : ∀ (texts done : List String),
      t ∈ texts.foldl (fun done t => if t ∈ done then done else done ++ [t]) done ↔
        t ∈ done ∨ t ∈ texts := by
    intro texts
    induction texts with
    | nil => simp
    | cons u texts ih =>
      intro done
      rw [List.foldl_cons, ih, List.mem_cons]
      split_ifs with h
      · constructor
        · exact Or.imp_right .inr
        · rintro (ht | rfl | ht)
          · exact .inl ht
          · exact .inl h
          · exact .inr ht
      · rw [List.mem_append, List.mem_singleton, or_assoc]
  rw [distinct, mem]
  simp

theorem nodup_distinct (texts : List String) : (distinct texts).Nodup := by
  have nodup : ∀ (texts done : List String), done.Nodup →
      (texts.foldl (fun done t => if t ∈ done then done else done ++ [t]) done).Nodup := by
    intro texts
    induction texts with
    | nil => exact fun _ h => h
    | cons t texts ih =>
      intro done h
      rw [List.foldl_cons]
      split_ifs with ht
      · exact ih _ h
      · exact ih _ (h.append (List.nodup_singleton t) (List.disjoint_singleton.mpr ht))
  exact nodup texts [] List.nodup_nil

/-- A registry can always be built. It holds the first scripts under their names. -/
theorem build_result (g : Game) : (build g).result = .ok (ofNamed g.named) :=
  addAll_result g.scripts [] [] fun _ => .rfl

theorem eq_ofNamed (h : (build g).result = .ok r) : r = ofNamed g.named :=
  Except.ok.inj (h.symm.trans (build_result g))

theorem nodup_keys_names (g : Game) : (Table.keys (ofNamed g.named).names).Nodup := by
  have keys : Table.keys (ofNamed g.named).names = (g.named.map Prod.fst).map Script.key := by
    rw [ofNamed, Table.keys, List.map_map, List.map_map]
    rfl
  rw [keys, Game.map_fst_named]
  exact nodup_keys_firstScripts [] g.scripts

/-- The registry of a game knows the named scripts by their names. -/
theorem nameOf?_eq_some_iff :
    (ofNamed g.named).nameOf? key = some name ↔ ∃ x, (x, name) ∈ g.named ∧ x.key = key := by
  constructor
  · intro h
    obtain ⟨⟨x, name'⟩, hx, heq⟩ := List.mem_map.mp (Table.mem_of_get? h)
    cases heq
    exact ⟨x, hx, rfl⟩
  · rintro ⟨x, hx, rfl⟩
    exact Table.get?_of_mem (nodup_keys_names g) (List.mem_map.mpr ⟨_, hx, rfl⟩)

theorem get?_events_of_mem (h : (x, name) ∈ g.named) :
    Table.get? (ofNamed g.named).events name = some (distinct (x.events.map Prod.fst)) := by
  refine Table.get?_of_mem ?_ (List.mem_map.mpr ⟨_, h, rfl⟩)
  rw [keys_events_ofNamed]
  exact nodup_naming _ _

/-- The names of a registry tell the scripts apart. -/
structure Sound (r : Registry) : Prop where
  distinct : ∀ key key' name, r.nameOf? key = some name → r.nameOf? key' = some name → key = key'

/-- A script has a name in a registry, and its events stand under the name. -/
def Registered (r : Registry) (x : Script) : Prop :=
  ∃ name, r.nameOf? x.key = some name ∧
    Table.get? r.events name = some (distinct (x.events.map Prod.fst))

/-- The registry of a game names every first script apart from the others. -/
theorem build_spec (h : (build g).result = .ok r) :
    r.Sound ∧ ∀ x ∈ firstScripts [] g.scripts, Registered r x := by
  obtain rfl := eq_ofNamed h
  refine ⟨⟨fun key key' name hkey hkey' => ?_⟩, fun x hx => ?_⟩
  · obtain ⟨x, hx, rfl⟩ := nameOf?_eq_some_iff.mp hkey
    obtain ⟨y, hy, rfl⟩ := nameOf?_eq_some_iff.mp hkey'
    rw [Game.eq_of_mem_named hx hy]
  · rw [← Game.map_fst_named] at hx
    obtain ⟨⟨x, name⟩, hmem, rfl⟩ := List.mem_map.mp hx
    exact ⟨name, nameOf?_eq_some_iff.mpr ⟨x, hmem, rfl⟩, get?_events_of_mem hmem⟩

theorem Registered.defines (h : Registered r x) (hname : r.nameOf? x.key = some name)
    (hevent : event ∈ x.events.map Prod.fst) : r.defines name event = true := by
  obtain ⟨name', hname', hevents⟩ := h
  obtain rfl : name' = name := Option.some.inj (hname'.symm.trans hname)
  rw [Registry.defines, hevents]
  simpa using mem_distinct.mpr hevent

end Registry
end GameScript
