import GameScript.Document.Basic

/-! Bitmaps. Equal bitmaps of a document are kept once, and a bitmap is packed into one byte for each of
its eight rows. -/

namespace GameScript

/-- The distinct bitmaps of a document, and where each of its frames is among them. -/
structure Atlas where
  /-- The distinct bitmaps, in order of their first appearance. -/
  unique : List (List UInt8)
  /-- For every frame of the document the position of its bitmap. -/
  index : List Nat
deriving DecidableEq, Repr

namespace Atlas

def empty : Atlas := ⟨[], []⟩

/-- The atlas with one more frame. A slot that was never filled shares the first bitmap. -/
def add (a : Atlas) : Frame → Atlas
  | .pixels data =>
      match a.unique.idxOf? data with
      | some i => { a with index := a.index ++ [i] }
      | none => ⟨a.unique ++ [data], a.index ++ [a.unique.length]⟩
  | .empty _ => { a with index := a.index ++ [0] }

def build (frames : List Frame) : Atlas := frames.foldl add empty

def indexOf? (a : Atlas) (frame : Nat) : Option Nat := a.index[frame]?

end Atlas

namespace Bitmap

/-- The byte of a row: its leftmost pixel is the highest bit, and a bit is set where the pixel is even.
Missing pixels are zero. -/
def packRow (pixels : List UInt8) (row : Nat) : UInt8 :=
  (List.range 8).foldl
    (fun byte column => (byte <<< 1) ||| (1 - pixels[row * 8 + column]?.getD 0 % 2)) 0

/-- The eight bytes of a bitmap, from the top row down. -/
def pack (pixels : List UInt8) : List UInt8 := (List.range 8).map (packRow pixels)

def packAll (bitmaps : List (List UInt8)) : List UInt8 := bitmaps.flatMap pack

def hexText (bytes : List UInt8) : String :=
  String.ofList (bytes.flatMap fun b =>
    [Nat.digitChar (b.toNat / 16), Nat.digitChar (b.toNat % 16)])

end Bitmap
end GameScript
