import GameScript.Bitmap
import Mathlib.Data.List.Basic
import Mathlib.Data.List.Induction
import Mathlib.Data.List.Nodup
import Mathlib.Data.Nat.Bitwise

/-! The bitmaps of a document and their packed form. Adding a frame to an atlas keeps the bitmaps distinct and in
order of first appearance, and the positions of all earlier frames; a byte of a packed bitmap takes one pixel in
at its low end after the other. The main statement is that every frame of a document is found again in the
packed bitmaps, pixel by pixel. -/

namespace GameScript

def Frame.bitmap? : Frame → Option (List UInt8)
  | .pixels data => some data
  | .empty _ => none

/-- The bitmaps of the frames that have one, in order and with repetitions. -/
def bitmaps (frames : List Frame) : List (List UInt8) := frames.filterMap Frame.bitmap?

theorem mem_bitmaps_iff {frames : List Frame} {data : List UInt8} :
    data ∈ bitmaps frames ↔ .pixels data ∈ frames := by
  constructor
  · intro h
    obtain ⟨frame, hframe, hdata⟩ := List.mem_filterMap.mp h
    cases frame with
    | pixels data' =>
      cases hdata
      exact hframe
    | empty value => cases hdata
  · intro h
    exact List.mem_filterMap.mpr ⟨.pixels data, h, rfl⟩

theorem bitmaps_concat (frames : List Frame) (frame : Frame) :
    bitmaps (frames ++ [frame]) = bitmaps frames ++ frame.bitmap?.toList := by
  rw [bitmaps, List.filterMap_append, bitmaps]
  cases frame <;> rfl

namespace Atlas

/-! ### The frames in an atlas -/

/-- The atlas of some frames: its bitmaps are theirs, each once and in the order in which the frames show them
first, and it has a position for every frame. -/
structure Indexes (a : Atlas) (frames : List Frame) : Prop where
  mem_iff : ∀ data, data ∈ a.unique ↔ data ∈ bitmaps frames
  ordered : a.unique.Pairwise fun data data' =>
    (bitmaps frames).idxOf data < (bitmaps frames).idxOf data'
  length : a.index.length = frames.length
  empty : ∀ i value, frames[i]? = some (.empty value) → a.indexOf? i = some 0
  pixels : ∀ i data, frames[i]? = some (.pixels data) →
    ∃ k, a.indexOf? i = some k ∧ a.unique[k]? = some data

namespace Indexes

variable {a : Atlas} {frames : List Frame}

theorem initial : Indexes Atlas.empty [] where
  mem_iff _ := Iff.rfl
  ordered := .nil
  length := rfl
  empty _ _ h := by cases h
  pixels _ _ h := by cases h

theorem nodup (h : Indexes a frames) : a.unique.Nodup := by
  refine h.ordered.imp fun hlt heq => ?_
  rw [heq] at hlt
  exact Nat.lt_irrefl _ hlt

/-- Further frames do not change where a bitmap is shown first. -/
theorem ordered_append (h : Indexes a frames) (later : List (List UInt8)) :
    a.unique.Pairwise fun data data' =>
      (bitmaps frames ++ later).idxOf data < (bitmaps frames ++ later).idxOf data' := by
  refine h.ordered.imp_of_mem fun {data data'} hdata hdata' hlt => ?_
  rw [List.idxOf_append_of_mem ((h.mem_iff data).mp hdata),
    List.idxOf_append_of_mem ((h.mem_iff data').mp hdata')]
  exact hlt

/-- An atlas that goes on with the position of one more frame has the frames, if the bitmaps are those of all
frames and the position is right. -/
theorem concat (h : Indexes a frames) {frame : Frame} {later : List (List UInt8)} {k : Nat}
    (mem_iff : ∀ data, data ∈ a.unique ++ later ↔ data ∈ bitmaps (frames ++ [frame]))
    (ordered : (a.unique ++ later).Pairwise fun data data' =>
      (bitmaps (frames ++ [frame])).idxOf data < (bitmaps (frames ++ [frame])).idxOf data')
    (place : ∀ data, frame.bitmap? = some data → (a.unique ++ later)[k]? = some data)
    (zero : frame.bitmap? = none → k = 0) :
    Indexes ⟨a.unique ++ later, a.index ++ [k]⟩ (frames ++ [frame]) := by
  -- a position is one of an earlier frame, which keeps its bitmap, or that of the new frame
  have position : ∀ {i : Nat} {f : Frame}, (frames ++ [frame])[i]? = some f →
      (frames[i]? = some f ∧ (a.index ++ [k])[i]? = a.index[i]?) ∨
        (f = frame ∧ (a.index ++ [k])[i]? = some k) := by
    intro i f hf
    rcases Nat.lt_or_ge i frames.length with hi | hi
    · rw [List.getElem?_append_left hi] at hf
      exact .inl ⟨hf, List.getElem?_append_left (by rw [h.length]; exact hi)⟩
    · rw [List.getElem?_append_right hi] at hf
      rw [List.getElem?_singleton] at hf
      split_ifs at hf with hzero
      refine .inr ⟨(Option.some.inj hf).symm, ?_⟩
      rw [List.getElem?_append_right (by rw [h.length]; exact hi), h.length, hzero]
      rfl
  refine ⟨mem_iff, ordered, by simp [h.length], fun i value hi => ?_, fun i data hi => ?_⟩
  · rcases position hi with ⟨hi, hindex⟩ | ⟨rfl, hindex⟩
    · exact hindex.trans (h.empty i value hi)
    · exact hindex.trans (congrArg some (zero rfl))
  · rcases position hi with ⟨hi, hindex⟩ | ⟨rfl, hindex⟩
    · obtain ⟨k, hk, hdata⟩ := h.pixels i data hi
      refine ⟨k, hindex.trans hk, ?_⟩
      rw [List.getElem?_append_left (List.getElem?_eq_some_iff.mp hdata).1, hdata]
    · exact ⟨k, hindex, place data rfl⟩

theorem add (h : Indexes a frames) (frame : Frame) : Indexes (a.add frame) (frames ++ [frame]) := by
  cases frame with
  | empty value =>
    have same : bitmaps (frames ++ [.empty value]) = bitmaps frames := by
      rw [bitmaps_concat]
      exact List.append_nil _
    have unchanged : a.add (.empty value) = ⟨a.unique ++ [], a.index ++ [0]⟩ := by
      rw [List.append_nil]
      rfl
    rw [unchanged]
    refine h.concat ?_ ?_ (fun _ hdata => nomatch hdata) fun _ => rfl
    · rw [same, List.append_nil]
      exact h.mem_iff
    · rw [same, List.append_nil]
      exact h.ordered
  | pixels data =>
    have longer : bitmaps (frames ++ [.pixels data]) = bitmaps frames ++ [data] := bitmaps_concat ..
    rw [Atlas.add]
    cases hfound : a.unique.idxOf? data with
    | some k =>
      obtain ⟨hk, hdata, -⟩ := List.idxOf?_eq_some_iff.mp hfound
      have found : a.unique[k]? = some data := List.getElem?_eq_some_iff.mpr ⟨hk, hdata⟩
      have shown : data ∈ bitmaps frames := (h.mem_iff data).mp (List.mem_of_getElem? found)
      have again : Indexes ⟨a.unique ++ [], a.index ++ [k]⟩ (frames ++ [.pixels data]) := by
        refine h.concat ?_ ?_ ?_ fun hnone => nomatch hnone
        · intro data'
          rw [longer, List.append_nil, h.mem_iff, List.mem_append, List.mem_singleton]
          exact ⟨.inl, fun hmem => hmem.elim id fun heq => heq ▸ shown⟩
        · rw [longer, List.append_nil]
          exact h.ordered_append [data]
        · rintro _ ⟨⟩
          rw [List.append_nil]
          exact found
      rw [List.append_nil] at again
      exact again
    | none =>
      have fresh : data ∉ a.unique := List.idxOf?_eq_none_iff.mp hfound
      have unseen : data ∉ bitmaps frames := fun hmem => fresh ((h.mem_iff data).mpr hmem)
      refine h.concat ?_ ?_ ?_ fun hnone => nomatch hnone
      · intro data'
        rw [longer, List.mem_append, List.mem_append, h.mem_iff]
      · rw [longer]
        refine List.pairwise_append.mpr ⟨h.ordered_append [data], List.pairwise_singleton _ _, ?_⟩
        intro data' hdata' _ hlast
        obtain rfl := List.mem_singleton.mp hlast
        have shown := (h.mem_iff data').mp hdata'
        rw [List.idxOf_append_of_mem shown, List.idxOf_append_of_notMem unseen]
        exact Nat.lt_of_lt_of_le (List.idxOf_lt_length_of_mem shown) (Nat.le_add_right _ _)
      · rintro _ ⟨⟩
        exact List.getElem?_concat_length

/-- By induction on the frames from the last one on: each is added to the atlas of those before it. -/
theorem build (frames : List Frame) : Indexes (Atlas.build frames) frames := by
  induction frames using List.reverseRecOn with
  | nil => exact initial
  | append_singleton frames frame ih =>
    rw [Atlas.build, List.foldl_append]
    exact ih.add frame

end Indexes
end Atlas

/-! ### Packed pixels -/

namespace Bitmap

/-- The byte with one more pixel at its low end. -/
def push (byte pixel : UInt8) : UInt8 := (byte <<< 1) ||| (1 - pixel % 2)

theorem toNat_push (byte pixel : UInt8) :
    (push byte pixel).toNat = (byte.toNat <<< 1) % 2 ^ 8 ||| (1 - pixel.toNat % 2) := by
  have parity : (pixel % 2).toNat = pixel.toNat % 2 := UInt8.toNat_mod ..
  have hle : pixel % 2 ≤ 1 := by
    rw [UInt8.le_iff_toNat_le, parity]
    exact Nat.le_of_lt_succ (Nat.mod_lt _ (by decide))
  rw [push, UInt8.toNat_or, UInt8.toNat_shiftLeft, UInt8.toNat_sub_of_le _ _ hle, parity]
  rfl

theorem testBit_push_zero (byte pixel : UInt8) :
    ((push byte pixel).toNat.testBit 0).toNat = 1 - pixel.toNat % 2 := by
  rw [toNat_push, Nat.testBit_or, Nat.testBit_mod_two_pow, Nat.testBit_shiftLeft]
  rcases Nat.mod_two_eq_zero_or_one pixel.toNat with h | h <;> rw [h] <;> rfl

theorem testBit_push_succ (byte pixel : UInt8) {k : Nat} (hk : k < 7) :
    (push byte pixel).toNat.testBit (k + 1) = byte.toNat.testBit k := by
  have low : (1 - pixel.toNat % 2).testBit (k + 1) = false :=
    Nat.testBit_lt_two_pow (Nat.lt_of_le_of_lt (Nat.sub_le _ _) (Nat.one_lt_two_pow (Nat.succ_ne_zero k)))
  rw [toNat_push, Nat.testBit_or, Nat.testBit_mod_two_pow, Nat.testBit_shiftLeft, low]
  simp
  omega

/-- Of at most eight pixels, the last one is the lowest bit. -/
theorem testBit_foldl_push (byte : UInt8) {pixels : List UInt8} (hlength : pixels.length ≤ 8) {i : Nat}
    {pixel : UInt8} (h : pixels[i]? = some pixel) :
    ((pixels.foldl push byte).toNat.testBit (pixels.length - 1 - i)).toNat = 1 - pixel.toNat % 2 := by
  induction pixels using List.reverseRecOn generalizing i with
  | nil => cases h
  | append_singleton pixels last ih =>
    rw [List.length_append, List.length_singleton] at hlength
    rw [List.foldl_append, List.foldl_cons, List.foldl_nil, List.length_append, List.length_singleton]
    rcases Nat.lt_or_ge i pixels.length with hi | hi
    · rw [List.getElem?_append_left hi] at h
      have shifted : pixels.length + 1 - 1 - i = pixels.length - 1 - i + 1 := by omega
      rw [shifted, testBit_push_succ _ _ (by omega)]
      exact ih (by omega) h
    · rw [List.getElem?_append_right hi, List.getElem?_singleton] at h
      split_ifs at h with hzero
      obtain rfl := Option.some.inj h
      have lowest : pixels.length + 1 - 1 - i = 0 := by omega
      rw [lowest, testBit_push_zero]

/-- The eight pixels of a row, where missing ones are zero. -/
def rowPixels (pixels : List UInt8) (row : Nat) : List UInt8 :=
  (List.range 8).map fun column => pixels[row * 8 + column]?.getD 0

theorem packRow_eq_foldl (pixels : List UInt8) (row : Nat) :
    packRow pixels row = (rowPixels pixels row).foldl push 0 := by
  rw [rowPixels, List.foldl_map]
  rfl

/-- A row has the parities of its pixels, the leftmost one in the highest bit. -/
theorem testBit_packRow (pixels : List UInt8) (row : Nat) {column : Nat} (h : column < 8) :
    ((packRow pixels row).toNat.testBit (7 - column)).toNat =
      1 - (pixels[8 * row + column]?.getD 0).toNat % 2 := by
  have length : (rowPixels pixels row).length = 8 := by simp [rowPixels]
  have pixel : (rowPixels pixels row)[column]? = some (pixels[8 * row + column]?.getD 0) := by
    simp [rowPixels, h, Nat.mul_comm]
  have bit := testBit_foldl_push 0 (Nat.le_of_eq length) pixel
  rw [length] at bit
  rw [packRow_eq_foldl]
  exact bit

/-- Only the first sixty-four pixels of a bitmap are packed. -/
theorem pack_take (pixels : List UInt8) : pack (pixels.take 64) = pack pixels := by
  refine List.map_congr_left fun row hrow => ?_
  have hrow := List.mem_range.mp hrow
  rw [packRow_eq_foldl, packRow_eq_foldl]
  congr 1
  refine List.map_congr_left fun column hcolumn => ?_
  have hcolumn := List.mem_range.mp hcolumn
  rw [List.getElem?_take_of_lt (by omega)]

theorem length_pack (pixels : List UInt8) : (pack pixels).length = 8 := by simp [pack]

theorem length_packAll (unique : List (List UInt8)) : (packAll unique).length = 8 * unique.length := by
  rw [packAll, List.length_flatMap]
  simp only [length_pack, List.map_const', List.sum_replicate_nat, Nat.mul_comm]

/-- The eight bytes of a bitmap stand at eight times its position. -/
theorem packAll_block : {unique : List (List UInt8)} → {k : Nat} → {data : List UInt8} →
    unique[k]? = some data → ((packAll unique).drop (8 * k)).take 8 = pack data
  | first :: unique, 0, _, h => by
    cases h
    rw [packAll, List.flatMap_cons, Nat.mul_zero, List.drop_zero]
    exact List.take_left' (length_pack first)
  | first :: unique, k + 1, _, h => by
    rw [packAll, List.flatMap_cons, Nat.mul_succ, Nat.add_comm, ← List.drop_drop,
      List.drop_left' (length_pack first)]
    exact packAll_block h

end Bitmap

/-! ### Frames and packed bitmaps -/

open Bitmap

/-- An atlas and packed bytes from which the frames of a document can be told. -/
structure Recovers (frames : List Frame) (atlas : Atlas) (packed : List UInt8) : Prop where
  nodup : atlas.unique.Nodup
  mem_iff : ∀ data, data ∈ atlas.unique ↔ .pixels data ∈ frames
  /-- Bitmaps are in the order in which the frames show them first. -/
  ordered : atlas.unique.Pairwise fun data data' =>
    (bitmaps frames).idxOf data < (bitmaps frames).idxOf data'
  position_iff : ∀ i, (atlas.indexOf? i).isSome ↔ i < frames.length
  empty : ∀ i value, frames[i]? = some (.empty value) → atlas.indexOf? i = some 0
  shared_iff : ∀ i j data data', frames[i]? = some (.pixels data) → frames[j]? = some (.pixels data') →
    (atlas.indexOf? i = atlas.indexOf? j ↔ data = data')
  length : packed.length = 8 * atlas.unique.length
  /-- The bytes of a frame: only its first sixty-four pixels are in them, each as the bit of its row and column,
  which is set where the pixel is even. -/
  pixels : ∀ i data, frames[i]? = some (.pixels data) →
    ∃ k, atlas.indexOf? i = some k ∧ atlas.unique[k]? = some data ∧
      (packed.drop (8 * k)).take 8 = pack (data.take 64) ∧
      ∀ row < 8, ∀ column < 8, ∃ byte, packed[8 * k + row]? = some byte ∧
        (byte.toNat.testBit (7 - column)).toNat = 1 - (data[8 * row + column]?.getD 0).toNat % 2

namespace Atlas.Indexes

variable {a : Atlas} {frames : List Frame}

theorem shared_iff (h : Indexes a frames) {i j : Nat} {data data' : List UInt8}
    (hi : frames[i]? = some (.pixels data)) (hj : frames[j]? = some (.pixels data')) :
    a.indexOf? i = a.indexOf? j ↔ data = data' := by
  obtain ⟨k, hk, hdata⟩ := h.pixels i data hi
  obtain ⟨k', hk', hdata'⟩ := h.pixels j data' hj
  rw [hk, hk', Option.some.injEq]
  constructor
  · rintro rfl
    exact Option.some.inj (hdata.symm.trans hdata')
  · rintro rfl
    obtain ⟨hlt, hdata⟩ := List.getElem?_eq_some_iff.mp hdata
    obtain ⟨hlt', hdata'⟩ := List.getElem?_eq_some_iff.mp hdata'
    exact (h.nodup.getElem_inj_iff).mp (hdata.trans hdata'.symm)

theorem recovers (h : Indexes a frames) : Recovers frames a (packAll a.unique) where
  nodup := h.nodup
  mem_iff data := (h.mem_iff data).trans mem_bitmaps_iff
  ordered := h.ordered
  position_iff i := by rw [indexOf?, isSome_getElem?, h.length]
  empty := h.empty
  shared_iff _ _ _ _ := h.shared_iff
  length := length_packAll a.unique
  pixels i data hi := by
    obtain ⟨k, hk, hdata⟩ := h.pixels i data hi
    have block := packAll_block hdata
    refine ⟨k, hk, hdata, block.trans (pack_take data).symm, fun row hrow column hcolumn => ?_⟩
    refine ⟨packRow data row, ?_, testBit_packRow data row hcolumn⟩
    rw [← List.getElem?_drop, ← List.getElem?_take_of_lt hrow, block]
    simp [pack, hrow]

end Atlas.Indexes

/-- Every frame of a document is told by the atlas and the packed bitmaps of all frames. -/
theorem frames_recovered (frames : List Frame) :
    Recovers frames (Atlas.build frames) (packAll (Atlas.build frames).unique) :=
  (Atlas.Indexes.build frames).recovers

end GameScript
