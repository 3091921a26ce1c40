import GameScript.Proofs.Assembly
import GameScript.Proofs.Registry

/-! Tiles by name. A literal name denotes the last tile of that name, by the tile's own id; a script of a tile
is named after the tile that stands at the position of its id. The two agree on the tiles that stand where
their ids say. -/

namespace GameScript

namespace Game

variable {g : Game} {options : Options} {t : Tile} {id : Int} {name : String}

/-- A name denotes the last of the tiles with it. -/
theorem lookup_tiles_iff :
    (Assembly.tileScope options g).tiles.lookup name = some id ↔
      ∃ before after t, g.tiles = before ++ t :: after ∧ (∀ u ∈ after, u.name ≠ t.name) ∧
        t.name = name ∧ t.id = id := by
  rw [Assembly.tileScope_eq, List.lookup_eq_some_iff]
  constructor
  · rintro ⟨later, earlier, hsplit, hlater⟩
    rw [List.reverse_eq_iff, List.reverse_append, List.reverse_cons, List.append_assoc,
      List.singleton_append] at hsplit
    obtain ⟨before, rest, htiles, -, hrest⟩ := List.map_eq_append_iff.mp hsplit
    obtain ⟨t, after, rfl, ht, hafter⟩ := List.map_eq_cons_iff.mp hrest
    obtain ⟨rfl, rfl⟩ := Prod.mk.inj ht
    refine ⟨before, after, t, htiles, fun u hu => ?_, rfl, rfl⟩
    have hmem : (u.name, u.id) ∈ later.reverse := hafter ▸ List.mem_map_of_mem hu
    exact Ne.symm (by simpa using hlater _ (List.mem_reverse.mp hmem))
  · rintro ⟨before, after, t, htiles, hafter, rfl, rfl⟩
    refine ⟨(after.map fun t => (t.name, t.id)).reverse, (before.map fun t => (t.name, t.id)).reverse, ?_, ?_⟩
    · rw [htiles]
      simp
    · intro p hp
      obtain ⟨u, hu, rfl⟩ := List.mem_map.mp (List.mem_reverse.mp hp)
      simpa using Ne.symm (hafter u hu)

/-- A literal name is folded to the id of a tile of that name. -/
theorem exists_tile_of_foldTile? {e : Expr}
    (h : (Assembly.tileScope options g).foldTile? (.string name) = some e) :
    ∃ t ∈ g.tiles, t.name = name ∧ e = .tile t.id name := by
  obtain ⟨id, hid, rfl⟩ := Option.map_eq_some_iff.mp h
  obtain ⟨before, after, t, htiles, -, hname, rfl⟩ := lookup_tiles_iff.mp hid
  exact ⟨t, htiles ▸ List.mem_append_right _ List.mem_cons_self, hname, rfl⟩

/-- The tile at the position that an id denotes. -/
def tileAt? (g : Game) (id : Int) : Option Tile := if 0 ≤ id then g.tiles[id.toNat]? else none

/-- Whether the name of a tile stands at the position that the tile's id denotes, be it that of another tile
there or, where no tile is, the one that stands in for it. -/
def NamedInPlace (g : Game) (t : Tile) : Prop :=
  match g.tileAt? t.id with
  | some u => u.name = t.name
  | none => placeholderName (.tile, t.id) = t.name

instance : Decidable (g.NamedInPlace t) := by
  unfold NamedInPlace
  split <;> infer_instance

/-- A tile that stands at the position of its id is named there. -/
theorem namedInPlace_of_getElem? {i : Nat} (h : g.tiles[i]? = some t) (hid : t.id = i) :
    g.NamedInPlace t := by
  have place : g.tileAt? t.id = some t := by rw [hid, tileAt?, if_pos (by omega), Int.toNat_natCast, h]
  rw [NamedInPlace, place]

/-- The script of a tile takes the tile's name just when that name stands at the position of the id. -/
theorem baseName_eq_iff : g.baseName (.tile, t.id) = t.name ↔ g.NamedInPlace t := by
  have base : g.baseName (.tile, t.id) =
      ((g.tileAt? t.id).map Tile.name).getD (placeholderName (.tile, t.id)) := by
    rw [baseName, givenName?, tileAt?]
    split_ifs <;> rfl
  rw [base, NamedInPlace]
  cases g.tileAt? t.id <;> rfl

/-- What a folded name and the registry say of one tile. A script of a tile takes the tile's name just when that
name stands at the position of the tile's id, and so it does wherever all tiles stand in the order of their
ids, counted from zero. A literal name is folded to the id of a tile of that name, and the script of that id is
registered under its base name or a name made from it, which is the literal name just when it stands in
place. -/
theorem tile_script_names (options : Options) (g : Game) :
    (∀ t ∈ g.tiles, (g.scriptName (.tile, t.id)).result = .ok t.name ↔ g.NamedInPlace t) ∧
    ((∀ (i : Nat) (t : Tile), g.tiles[i]? = some t → t.id = i) → ∀ t ∈ g.tiles, g.NamedInPlace t) ∧
    ∃ r, (Registry.build g).result = .ok r ∧
      ∀ n id, (Assembly.tileScope options g).foldTile? (.string n) = some (.tile id n) →
        ∀ x ∈ g.scripts, x.key = (.tile, id) →
          ∃ t ∈ g.tiles, t.id = id ∧ t.name = n ∧ ∃ base name,
            (g.scriptName (.tile, id)).result = .ok base ∧ (base = n ↔ g.NamedInPlace t) ∧
            r.nameOf? (.tile, id) = some name ∧ Registry.NamedAfter (.tile, id) base name := by
  refine ⟨fun t _ => ?_, fun inPlace t ht => ?_, _, Registry.build_result g, ?_⟩
  · rw [scriptName_result, Except.ok.injEq, baseName_eq_iff]
  · obtain ⟨i, hi⟩ := List.mem_iff_getElem?.mp ht
    exact namedInPlace_of_getElem? hi (inPlace i t hi)
  · intro n id hfold x hx hkey
    obtain ⟨t, ht, rfl, htile⟩ := exists_tile_of_foldTile? hfold
    obtain rfl : id = t.id := (Expr.tile.inj htile).1
    obtain ⟨y, name, hy, hykey⟩ := exists_mem_named hx
    rw [hkey] at hykey
    have hname := Registry.nameOf?_eq_some_iff.mpr ⟨y, hy, hykey⟩
    have after := Registry.namedAfter_of_mem_naming hy
    rw [hykey] at after
    exact ⟨t, ht, rfl, rfl, _, name, g.scriptName_result _, baseName_eq_iff, hname, after⟩

/-- A lamp that stands in place gives its script its name, though another tile is out of place. -/
theorem tile_script_names_lamp :
    let door : Tile := ⟨5, "Door", none, 0, 0, false, []⟩
    let lamp : Tile := ⟨1, "Lamp", none, 0, 0, false, []⟩
    let g : Game := ⟨"g", none, ⟨0, 0, 0, 0⟩, [], [door, lamp], [], [], [], [⟨.tile, 1, [], []⟩]⟩
    ∃ r name, (Registry.build g).result = .ok r ∧ r.nameOf? (.tile, 1) = some name ∧
      Registry.NamedAfter (.tile, 1) "Lamp" name := by
  intro door lamp g
  obtain ⟨-, -, r, hr, all⟩ := tile_script_names .standard g
  obtain ⟨t, ht, hid, htname, base, name, -, hbase, hname, after⟩ :=
    all "Lamp" 1 rfl ⟨.tile, 1, [], []⟩ (by simp [g]) rfl
  obtain rfl : t = lamp := by
    rcases List.mem_cons.mp ht with rfl | ht
    · exact absurd hid (by decide)
    · exact List.mem_singleton.mp ht
  obtain rfl : base = "Lamp" := hbase.mpr (by decide)
  exact ⟨r, name, hr, hname, after⟩

/-- Where two tiles have changed places, the script of the one is named after the other: a name that is folded
to the lamp's id is not the name of the lamp's script, nor is that made from it. -/
theorem tile_script_names_swapped :
    let lamp : Tile := ⟨1, "Lamp", none, 0, 0, false, []⟩
    let door : Tile := ⟨0, "Door", none, 0, 0, false, []⟩
    let g : Game := ⟨"g", none, ⟨0, 0, 0, 0⟩, [], [lamp, door], [], [], [], [⟨.tile, 1, [], []⟩]⟩
    (g.tiles.map Tile.id).Nodup ∧ lamp ∈ g.tiles ∧
      (Assembly.tileScope .standard g).foldTile? (.string "Lamp") = some (.tile 1 "Lamp") ∧
      (g.scriptName (.tile, 1)).result = .ok "Door" ∧
      ∃ r, (Registry.build g).result = .ok r ∧ r.nameOf? (.tile, 1) = some "Door" ∧
        ¬ Registry.NamedAfter (.tile, 1) "Lamp" "Door" := by
  intro lamp door g
  refine ⟨by decide, List.mem_cons_self, rfl, rfl, _, rfl, rfl, ?_⟩
  intro h
  generalize hname : "Door" = name at h
  cases h with
  | base => exact absurd hname (by decide)
  | qualified => exact absurd hname (by decide)
  | numbered i =>
    have head : (toString (Registry.qualified (.tile, 1) "Lamp")).toList.head? = some 't' := by decide
    have := congrArg (fun s => s.toList.head?) hname
    simp only [String.toList_append, List.head?_append, head] at this
    cases this

end Game
end GameScript
