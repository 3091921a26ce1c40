import GameScript.Proofs.Document.Events

/-! The targets of decoded mimics. No stored expression stands for a tile that is already known by id: decoding
gives names and numbers, and only the compiler turns them into tiles. -/

namespace GameScript
namespace Decode

variable {count : Nat}

theorem expr_ne_tile {v : Json} {e : Expr} (h : expr count v = .ok e) (id : Int) (name : String) :
    e ≠ .tile id name := by
  rintro rfl
  unfold expr at h
  split at h
  · cases h
  · cases h
  · cases h
  · cases h
  · cases h
  · split at h
    · obtain ⟨_, -, h⟩ := map_eq_ok h
      cases h
    · obtain ⟨_, -, h⟩ := map_eq_ok h
      cases h
    · obtain ⟨_, -, h⟩ := map_eq_ok h
      cases h
    · split at h
      · cases h
      · obtain ⟨_, -, h⟩ := bind_eq_ok h
        obtain ⟨_, -, h⟩ := bind_eq_ok h
        cases h
    · split at h
      · cases h
      · obtain ⟨_, -, h⟩ := map_eq_ok h
        cases h
    · obtain ⟨_, -, h⟩ := map_eq_ok h
      cases h
    · obtain ⟨_, -, h⟩ := map_eq_ok h
      cases h
    · obtain ⟨_, -, h⟩ := map_eq_ok h
      cases h
    · cases h
  · cases h

theorem argument_ne_tile : (n : Nat) → (vs : List Json) → {e : Expr} → argument count n vs = .ok e →
    ∀ id name, e ≠ .tile id name
  | _, [], _, h, _, _ => by
    rintro rfl
    cases h
  | 0, _ :: _, _, h, id, name => expr_ne_tile h id name
  | n + 1, _ :: vs, _, h, id, name => argument_ne_tile n vs h id name

theorem tagged_ne_mimic_tile {tag : String} {args : List Json} {target : Expr}
    (h : tagged count tag args = .ok (.mimic target)) : ∀ id name, target ≠ .tile id name := by
  unfold tagged at h
  split at h
  · cases h
  · cases h
  · cases h
  · cases h
  · obtain ⟨_, -, h⟩ := bind_eq_ok h
    obtain ⟨_, -, h⟩ := bind_eq_ok h
    cases h
  · obtain ⟨_, -, h⟩ := map_eq_ok h
    cases h
  · obtain ⟨_, -, h⟩ := map_eq_ok h
    cases h
  · obtain ⟨_, -, h⟩ := bind_eq_ok h
    obtain ⟨_, -, h⟩ := bind_eq_ok h
    obtain ⟨_, -, h⟩ := bind_eq_ok h
    cases h
  · obtain ⟨_, -, h⟩ := bind_eq_ok h
    obtain ⟨_, -, h⟩ := bind_eq_ok h
    cases h
  · obtain ⟨_, -, h⟩ := map_eq_ok h
    cases h
  · obtain ⟨_, -, h⟩ := map_eq_ok h
    cases h
  · obtain ⟨_, htarget, h⟩ := map_eq_ok h
    cases h
    exact argument_ne_tile 0 args htarget
  · obtain ⟨_, -, h⟩ := bind_eq_ok h
    obtain ⟨_, -, h⟩ := bind_eq_ok h
    cases h
  · obtain ⟨_, -, h⟩ := map_eq_ok h
    cases h
  · cases h

theorem block_ne_mimic_tile {script : Int} {index : Nat} {v : Json} {cs : Block} {target : Expr}
    (h : block script count index v = .ok cs) (hmem : .mimic target ∈ cs) :
    ∀ id name, target ≠ .tile id name := by
  unfold block at h
  split at h
  · obtain ⟨decoded, hdecoded, rfl⟩ := map_eq_ok h
    obtain ⟨_, hmem, rfl⟩ := List.mem_filterMap.mp hmem
    obtain ⟨v, -, hv⟩ := exists_of_mapM_eq_ok hdecoded hmem
    unfold command at hv
    split at hv
    · obtain ⟨c, hc, h⟩ := map_eq_ok hv
      cases h
      exact tagged_ne_mimic_tile hc
    · cases hv
    · cases hv
  · cases h

theorem mem_blocksFrom {script : Int} : {index : Nat} → {vs : List Json} → {bs : List Block} →
    blocksFrom script count index vs = .ok bs → ∀ cs ∈ bs, ∃ i v, block script count i v = .ok cs
  | _, [], _, h => by
    cases h
    exact fun _ hmem => nomatch hmem
  | index, v :: vs, _, h => by
    obtain ⟨cs, hcs, h⟩ := bind_eq_ok h
    obtain ⟨bs, hbs, h⟩ := bind_eq_ok h
    cases h
    exact List.forall_mem_cons.mpr ⟨⟨index, v, hcs⟩, mem_blocksFrom hbs⟩

end Decode

theorem Script.mimic_ne_tile_of_decode {r : ScriptRecord} {x : Script} (h : Script.decode r = .ok x)
    {cs : Block} (hcs : cs ∈ x.blocks) {target : Expr} (hmem : .mimic target ∈ cs) :
    ∀ id name, target ≠ .tile id name := by
  obtain ⟨values, hblocks, -⟩ := Script.decode_eq_ok h
  obtain ⟨_, _, hblock⟩ := Decode.mem_blocksFrom hblocks cs hcs
  exact Decode.block_ne_mimic_tile hblock hmem

/-- No mimic of a loaded game has a tile that is known by id for its target. -/
theorem Game.load_mimic_ne_tile {text : String} {g : Game} (h : Game.load text = .ok g) {x : Script}
    (hx : x ∈ g.scripts) {cs : Block} (hcs : cs ∈ x.blocks) {target : Expr} (hmem : .mimic target ∈ cs) :
    ∀ id name, target ≠ .tile id name := by
  obtain ⟨_, -, hdecoded⟩ := load_decoded h
  obtain ⟨_, -, hdecode⟩ := hdecoded x hx
  exact x.mimic_ne_tile_of_decode hdecode hcs hmem

end GameScript
